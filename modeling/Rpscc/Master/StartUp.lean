import Mathlib.Order.Nat
import Rpscc.Master.Roster

/-!
# When the cluster is ready

The master delivers the configuration when `Ready` finds as many servers and as many agents as the
command line asks for.  It looks once after every register message, and compares for equality.

What it should do is to deliver when there are enough of both for the first time.  The two agree
unless one kind is already one too many when the other is complete: then the numbers never match
again, and nobody is ever told anything (`surplus_server_never_ready`).  And when they do match, a
single address without a port ends the master before it tells anybody (the last example).
`delivered_once_iff` says so for every order in which nodes can register.
-/

set_option autoImplicit false

namespace Rpscc

namespace Master

variable {F : Type} {f : Flags} {rs : List Registration}

/-- How many servers have registered. -/
def servers (rs : List Registration) : ℕ := rs.countP fun r ↦ r.msg.isServer

/-- How many agents have registered. -/
def agents (rs : List Registration) : ℕ := rs.countP fun r ↦ !r.msg.isServer

/-- There are at least as many servers and agents as the command line asks for. -/
def Enough (f : Flags) (rs : List Registration) : Prop :=
  f.serverNum ≤ servers rs ∧ f.workerNum ≤ agents rs

/-- There are exactly as many. -/
def Complete (f : Flags) (rs : List Registration) : Prop :=
  servers rs = f.serverNum ∧ agents rs = f.workerNum

/-- The configuration is delivered at the first message after which there are enough nodes, and at
no other. -/
def DeliveredOnce (f : Flags) (rs : List Registration)
    (tr : List (Registration × Option (List (Sent F)))) : Prop :=
  ∀ (k : ℕ) r sent, tr[k]? = some (r, sent) →
    (sent.isSome ↔ Enough f (rs.take (k + 1)) ∧ ¬ Enough f (rs.take k))

/-! ## Counting registrations -/

theorem servers_add_agents (rs : List Registration) : servers rs + agents rs = rs.length := by
  rw [servers, agents, List.length_eq_countP_add_countP (p := fun r ↦ r.msg.isServer)]
  simp

theorem servers_take_mono (rs : List Registration) {j k : ℕ} (h : j ≤ k) :
    servers (rs.take j) ≤ servers (rs.take k) ∧ agents (rs.take j) ≤ agents (rs.take k) :=
  have hsub : (rs.take j).Sublist (rs.take k) := (List.take_prefix_take_left h).sublist
  ⟨hsub.countP_le, hsub.countP_le⟩

theorem Enough.mono {j k : ℕ} (h : Enough f (rs.take j)) (hjk : j ≤ k) :
    Enough f (rs.take k) := by
  obtain ⟨hs, ha⟩ := servers_take_mono rs hjk
  rw [Enough] at h ⊢
  omega

/-- The number of messages it takes until the cluster is complete. -/
theorem Complete.eq_add {k : ℕ} (h : Complete f (rs.take k)) (hk : k ≤ rs.length) :
    (k : Int) = f.serverNum + f.workerNum := by
  have hlen := servers_add_agents (rs.take k)
  rw [List.length_take, Nat.min_eq_left hk] at hlen
  rw [Complete] at h
  omega

theorem Enough.add_le {k : ℕ} (h : Enough f (rs.take k)) : f.serverNum + f.workerNum ≤ k := by
  have hlen := servers_add_agents (rs.take k)
  have hle : (rs.take k).length ≤ k := List.length_take_le k rs
  rw [Enough] at h
  omega

/-- There are enough for the first time when the cluster is complete, if it ever is. -/
theorem complete_iff_first (hcomplete : Enough f rs → ∃ j ≤ rs.length, Complete f (rs.take j))
    {k : ℕ} (hk : k < rs.length) :
    Complete f (rs.take (k + 1)) ↔ Enough f (rs.take (k + 1)) ∧ ¬ Enough f (rs.take k) := by
  constructor
  · intro h
    have hlen := h.eq_add hk
    refine ⟨⟨h.1.ge, h.2.ge⟩, fun henough ↦ ?_⟩
    have hle := henough.add_le
    omega
  · rintro ⟨henough, hnot⟩
    have hall : Enough f rs := by
      have h := henough.mono (Nat.succ_le_of_lt hk)
      rwa [List.take_length] at h
    obtain ⟨j, hj, hjc⟩ := hcomplete hall
    have hlen := hjc.eq_add hj
    have hle := henough.add_le
    rcases Nat.lt_or_ge k j with hlt | hge
    · obtain rfl : j = k + 1 := by omega
      exact hjc
    · exact absurd (Enough.mono ⟨hjc.1.ge, hjc.2.ge⟩ hge) hnot

/-- If there are enough nodes at the end, there is a first message after which there are. -/
theorem exists_first (hpos : 1 ≤ f.serverNum) (h : Enough f rs) :
    ∃ k < rs.length, Enough f (rs.take (k + 1)) ∧ ¬ Enough f (rs.take k) := by
  classical
  have hex : ∃ k, Enough f (rs.take k) := ⟨rs.length, by rwa [List.take_length]⟩
  have hle : Nat.find hex ≤ rs.length := Nat.find_min' hex (by rwa [List.take_length])
  have hfirst := Nat.find_spec hex
  obtain ⟨k, hk⟩ : ∃ k, Nat.find hex = k + 1 := by
    refine Nat.exists_eq_succ_of_ne_zero fun hzero ↦ ?_
    rw [hzero] at hfirst
    have hnone := hfirst.1
    simp only [List.take_zero, servers, List.countP_nil] at hnone
    omega
  rw [hk] at hfirst hle
  exact ⟨k, hle, hfirst, Nat.find_min hex (by omega)⟩

/-! ## The run of the master -/

/-- Who has registered. -/
def messages (rs : List Registration) : List RegisterMessage := rs.map Registration.msg

/-- What the master has written down, and when it has delivered. -/
structure Counted (f : Flags) (masters : List String) (m : Master)
    (tr : List (Registration × Option (List (Sent F)))) : Prop where
  roster : TaskConfig.Roster f masters (messages (tr.map Prod.fst)) m.config
  delivered : ∀ (k : ℕ) r sent, tr[k]? = some (r, sent) →
    (sent.isSome ↔ Complete f ((tr.map Prod.fst).take (k + 1)) ∧
      Addressed masters (messages ((tr.map Prod.fst).take (k + 1))))

/-- The numbers match when the cluster is complete. -/
theorem ready_iff_complete {masters : List String} {t : TaskConfig}
    (h : TaskConfig.Roster f masters (messages rs) t) : t.ready = true ↔ Complete f rs := by
  have hserver : (messages rs).countP (fun r ↦ r.isServer = true) = servers rs := by
    rw [messages, List.countP_map, servers]
    exact List.countP_congr fun r _ ↦ by simp
  have hagent : (messages rs).countP (fun r ↦ r.isServer = false) = agents rs := by
    rw [messages, List.countP_map, agents]
    exact List.countP_congr fun r _ ↦ by simp
  rw [h.ready_iff, hserver, hagent, Complete]

theorem Counted.handle {masters : List String} {m : Master}
    {tr : List (Registration × Option (List (Sent F)))} (h : Counted f masters m tr)
    (r : Registration) :
    ∃ m' sent, m.handle r = .ok (m', sent) ∧ Counted f masters m' (tr ++ [(r, sent)]) := by
  obtain ⟨m', sent, hreg, hsome, -, -, hconfig, -⟩ :=
    register_ok (F := F) h.roster.numbered r.draw r.now r.msg
  have hmap : (tr ++ [(r, sent)]).map Prod.fst = tr.map Prod.fst ++ [r] := by
    rw [List.map_append, List.map_singleton]
  have hmessages : messages (tr.map Prod.fst ++ [r]) = messages (tr.map Prod.fst) ++ [r.msg] :=
    List.map_append ..
  have hroster := roster_processRegisterMsg h.roster r.msg
  have haddr := roster_addressed_iff h.roster r.msg
  rw [← hmessages] at hroster haddr
  refine ⟨m', sent, hreg, ?_, ?_⟩
  · rw [hconfig, hmap]
    split
    · exact hroster.generatePartition r.draw
    · exact hroster
  · intro k r' sent' hk
    rw [hmap]
    rcases Nat.lt_trichotomy k tr.length with hlt | rfl | hgt
    · rw [List.getElem?_append_left hlt] at hk
      rw [List.take_append_of_le_length (by rw [List.length_map]; omega)]
      exact h.delivered k r' sent' hk
    · rw [List.getElem?_concat_length] at hk
      cases hk
      rw [hsome, Bool.and_eq_true, List.take_of_length_le (by simp), ready_iff_complete hroster,
        haddr]
    · rw [List.getElem?_eq_none (by simp; omega)] at hk
      cases hk

/-- **The configuration is delivered once, unless there is a surplus or an address without a port.**
Whatever registers in whatever order, the master delivers the configuration exactly at the first
message after which there are enough servers and agents, and never if there are never enough, if and
only if there are never enough, or the messages up to some point are from exactly as many servers
and agents as the command line asks for and the ports can be read from their addresses and those of
the masters. -/
theorem delivered_once_iff (f : Flags) (hservers : 1 ≤ f.serverNum) (masters : List String)
    (rs : List Registration) :
    ∃ m tr, Checked.run (handle (F := F)) (initializeMaster f masters) rs = .ok (m, tr) ∧
      (DeliveredOnce f rs tr ↔ (Enough f rs → ∃ j ≤ rs.length, Complete f (rs.take j) ∧
        Addressed masters (messages (rs.take j)))) := by
  have hstart : Counted (F := F) f masters (initializeMaster f masters) [] :=
    ⟨TaskConfig.roster_initializeMaster f masters, by simp⟩
  obtain ⟨m, tr, hrun, h⟩ := Checked.run_invariant (fun _ ↦ True) hstart
    (fun _ _ r _ h ↦ h.handle r) rs fun _ _ ↦ trivial
  have hmap := Checked.run_map_fst hrun
  have hdelivered := h.delivered
  rw [hmap] at hdelivered
  have hlen : tr.length = rs.length := by rw [← hmap, List.length_map]
  refine ⟨m, tr, hrun, ?_⟩
  constructor
  · intro hall henough
    obtain ⟨k, hk, hfirst⟩ := exists_first hservers henough
    have hget := List.getElem?_eq_getElem (hlen ▸ hk)
    have hnow := (hdelivered k _ _ hget).1 ((hall k _ _ hget).2 hfirst)
    exact ⟨k + 1, hk, hnow⟩
  · intro hcond k r sent hget
    have hk : k < rs.length := hlen ▸ (List.getElem?_eq_some_iff.1 hget).1
    rw [hdelivered k r sent hget, ← complete_iff_first
      (fun henough ↦ (hcond henough).imp fun _ h ↦ ⟨h.1, h.2.1⟩) hk]
    refine and_iff_left_of_imp fun hcomplete ↦ ?_
    -- the cluster is complete once only
    have henough : Enough f rs := by
      have h := Enough.mono ⟨hcomplete.1.ge, hcomplete.2.ge⟩ (Nat.succ_le_of_lt hk)
      rwa [List.take_length] at h
    obtain ⟨j, hj, hjc, haddr⟩ := hcond henough
    have hsame := hcomplete.eq_add hk
    have hsame' := hjc.eq_add hj
    obtain rfl : j = k + 1 := by omega
    exact haddr

/-- A server that comes when the cluster is complete does no harm. -/
theorem delivered_once_iff_late : ∃ m tr,
    Checked.run (handle (F := Int)) (initializeMaster smallFlags ["10.0.0.1:16666"])
      [smallServer 1, smallAgent 2, smallServer 3, smallServer 4] = .ok (m, tr) ∧
    DeliveredOnce smallFlags [smallServer 1, smallAgent 2, smallServer 3, smallServer 4] tr := by
  obtain ⟨m, tr, hrun, hiff⟩ := delivered_once_iff (F := Int) smallFlags (by decide)
    ["10.0.0.1:16666"] [smallServer 1, smallAgent 2, smallServer 3, smallServer 4]
  refine ⟨m, tr, hrun, hiff.2 fun _ ↦ ⟨3, by decide, ⟨rfl, rfl⟩, ?_⟩⟩
  have hnode : ∀ port : Int, Checked.IsInt32 port → Checked.IsInt32 (port + 1) →
      ∃ next, heartbeatAddr ("10.0.0.1" ++ ":" ++ toString port) = .ok next := fun _ h h' ↦
    ⟨_, heartbeatAddr_append (by decide) h h'⟩
  have hmaster : ("10.0.0.1:16666" : String) = "10.0.0.1" ++ ":" ++ toString (16666 : Int) := rfl
  refine List.forall_mem_cons.2 ⟨hmaster ▸ hnode 16666 (by decide) (by decide), ?_⟩
  refine List.forall_mem_cons.2 ⟨hnode 1 (by decide) (by decide), ?_⟩
  refine List.forall_mem_cons.2 ⟨hnode 2 (by decide) (by decide), ?_⟩
  exact List.forall_mem_singleton.2 (hnode 3 (by decide) (by decide))

/-- A third server registers before the agent does, and the configuration is never delivered. -/
theorem surplus_server_never_ready : ∃ m tr,
    Checked.run (handle (F := Int)) (initializeMaster smallFlags ["10.0.0.1:16666"])
      [smallServer 1, smallServer 2, smallServer 3, smallAgent 4] = .ok (m, tr) ∧
    Enough smallFlags [smallServer 1, smallServer 2, smallServer 3, smallAgent 4] ∧
    readies tr = 0 ∧
    ¬ DeliveredOnce smallFlags [smallServer 1, smallServer 2, smallServer 3, smallAgent 4] tr := by
  refine ⟨_, _, rfl, ⟨by decide, by decide⟩, rfl, fun h ↦ ?_⟩
  have hlast := (h 3 _ _ rfl).2 ⟨⟨by decide, by decide⟩, fun henough ↦ ?_⟩
  · simp at hlast
  · exact absurd henough.2 (by decide)

/-- The master itself has been started with an address without a port, and delivers nothing. -/
example : ∃ m tr, Checked.run (handle (F := Int)) (initializeMaster smallFlags ["10.0.0.1"])
      [smallServer 1, smallAgent 2, smallServer 3] = .ok (m, tr) ∧
    readies tr = 0 ∧ m.terminated = true :=
  ⟨_, _, rfl, rfl, rfl⟩

end Master

end Rpscc
