import Mathlib.Tactic.IntervalCases
import Rpscc.Cluster.Ownership
import Rpscc.Server.Reconfigure

/-!
# When a server dies

The master takes the dead server and its boundary out of the configuration (`TaskConfig.fixConfig`),
so its range goes to the server *before* it.  Every server keeps backups of the servers before it,
and `Server::Reconfigure` puts backups in front of its parameters until they fit the new range.  So
the server that inherits the range has no backup of it in the place where it looks, and it puts what
it has in front of its own parameters, which moves those as well.

`failover_keeps_iff` says exactly when the parameters survive this: when the new ranges can be
computed in `int32`, and the values happen to repeat with the period by which the parameters have
been moved.  A server that dies with a range of its own
length in front of its heir is enough to lose them (`failover_loses_parameters`).
-/

set_option autoImplicit false

namespace Rpscc

variable {F : Type}

/-- The value the cluster holds for a key: what the owner of the key keeps at its offset. -/
def valueAt (ids : List Int) (p : Partition) (server : Int → Server F) (key : Int) :
    Except Fault F := do
  let id ← Checked.get ids (p.getServerByKey key)
  Checked.get (server id).parameters
    (((key - (server id).startKey + (server id).keyRange)) % (server id).keyRange)

namespace ConfigMessage

/-- The index of the server `t` places before server `i`. -/
def before (config : ConfigMessage) (i t : ℕ) : ℕ :=
  (i + config.serverId.length - t) % config.serverId.length

/-- The id of server `i`. -/
def idAt (config : ConfigMessage) (i : ℕ) : Int := (config.serverId[i]?).getD 0

/-- Server `i` of a healthy cluster: it has its range, the parameters of the servers before it as
backups, and no blocked pull. -/
structure Stands (config : ConfigMessage) (server : Int → Server F) (i : ℕ) (s : Server F) :
    Prop where
  localId : s.localId = config.idAt i
  startKey : s.startKey = config.startOf i
  keyRange : s.keyRange = config.keyRange
  parameters : (s.parameters.length : Int) = config.lengthOf i
  backupSize : s.backupSize = config.backupSize
  backups : s.backupParameters = (List.range config.backupSize.toNat).map fun t ↦
    (server (config.idAt (config.before i (t + 1)))).parameters
  pullRequest : s.pullRequest = []
  agentNum : s.agentNum = config.workerNum
  agentIds : ∀ a ∈ s.agentIds, a ∈ config.workerId
  idToIndex : ∀ a ∈ config.workerId, ∃ k, s.idToIndex a = some k

/-- A healthy cluster of at least three servers. -/
structure Healthy (config : ConfigMessage) (server : Int → Server F) : Prop where
  servers : config.ServersOk
  workers : config.WorkersOk
  three : 3 ≤ config.serverNum
  increasing : config.partition.Pairwise (· < ·)
  backup_pos : 1 ≤ config.backupSize
  stands : ∀ i < config.serverId.length, config.Stands server i (server (config.idAt i))

/-- The configuration for the servers that survive, with the partition of `t`. -/
structure FixedBy (config : ConfigMessage) (t : TaskConfig) (config' : ConfigMessage) : Prop where
  serverId : config'.serverId = t.serverId
  serverNum : config'.serverNum = t.serverId.length
  partition : config'.partition = t.partition
  keyRange : config'.keyRange = config.keyRange
  workerNum : config'.workerNum = config.workerNum
  workerId : config'.workerId = config.workerId

end ConfigMessage

/-! ## The ranges of the servers that survive -/

/-- The old index of the server that is number `u` once server `i` has been taken out. -/
def skip (i u : ℕ) : ℕ := if u < i then u else u + 1

section

variable {config config' : ConfigMessage} {p : Partition} {i : ℕ}

theorem skip_ne (i u : ℕ) : skip i u ≠ i := by
  rw [skip]
  split <;> omega

theorem skip_lt {i u n : ℕ} (hu : u < n - 1) : skip i u < n := by
  rw [skip]
  split <;> omega

theorem exists_skip_eq {i j n : ℕ} (hi : i < n) (hj : j < n) (hne : j ≠ i) :
    ∃ u < n - 1, skip i u = j := by
  rcases Nat.lt_or_ge j i with h | h
  · exact ⟨j, by omega, if_pos h⟩
  · exact ⟨j - 1, by omega, by rw [skip, if_neg (by omega)]; omega⟩

theorem next_eq {n k : ℕ} (hk : k < n) : (k + 1) % n = if k + 1 < n then k + 1 else 0 := by
  split
  · rename_i h
    exact Nat.mod_eq_of_lt h
  · rw [show k + 1 = n by omega, Nat.mod_self]

/-- The next of the servers that survive. -/
theorem skip_next {n u : ℕ} (hi : i < n) (hu : u < n - 1) :
    skip i ((u + 1) % (n - 1))
      = if (skip i u + 1) % n = i then (i + 1) % n else (skip i u + 1) % n := by
  rw [next_eq hu, next_eq hi, next_eq (skip_lt hu)]
  simp only [skip]
  split_ifs <;> omega

variable (hs : config.RangesOk) (hp : p.Ordered) (hsame : config.SamePartition p)
  (hinc : config.partition.Pairwise (· < ·))

include hs hinc in
theorem startOf_strictMono {j k : ℕ} (hjk : j < k) (hk : k < config.serverId.length) :
    config.startOf j < config.startOf k := by
  have hlen := hs.partition
  have hlt := List.pairwise_iff_getElem.1 hinc j k (by omega) (by omega) hjk
  rw [ConfigMessage.startOf, ConfigMessage.startOf, List.getElem?_eq_getElem (by omega),
    List.getElem?_eq_getElem (by omega), Option.getD_some, Option.getD_some]
  exact hlt

include hs hp hsame hinc in
/-- Every server owns a key. -/
theorem lengthOf_pos (htwo : 2 ≤ config.serverId.length) {j : ℕ}
    (hj : j < config.serverId.length) : 0 < config.lengthOf j := by
  rcases Nat.lt_or_ge (j + 1) config.serverId.length with h | h
  · have hlt := startOf_strictMono hs hinc (show j < j + 1 by omega) h
    rw [lengthOf_eq_sub hs hp hsame h]
    omega
  · obtain ⟨-, hnonneg, -⟩ := Layout.get_partition hs (show 0 < config.serverId.length by omega)
    obtain ⟨-, -, hlt⟩ := Layout.get_partition hs hj
    have hne := (startOf_strictMono hs hinc (show 0 < j by omega) hj).ne
    rw [lengthOf_last hs hp hsame (show config.serverId.length = j + 1 by omega) hne]
    omega

include hs hp hsame hinc in
/-- Of three servers, two neighbours do not own everything. -/
theorem lengthOf_add_lt (hthree : 3 ≤ config.serverId.length) {j : ℕ}
    (hj : j < config.serverId.length) (hi : (j + 1) % config.serverId.length = i) :
    config.lengthOf j + config.lengthOf i < config.keyRange := by
  obtain ⟨n, hn⟩ : ∃ n, config.serverId.length = n + 1 := ⟨config.serverId.length - 1, by omega⟩
  have hmono : ∀ {a b : ℕ}, a < b → b < config.serverId.length →
      config.startOf a < config.startOf b := startOf_strictMono hs hinc
  have hlast := lengthOf_last hs hp hsame hn (hmono (by omega) (by omega)).ne
  have hsub : ∀ {k : ℕ}, k + 1 < config.serverId.length →
      config.lengthOf k = config.startOf (k + 1) - config.startOf k := lengthOf_eq_sub hs hp hsame
  rw [next_eq hj] at hi
  split at hi
  · rename_i hj'
    subst hi
    obtain ⟨-, hnonneg, -⟩ := Layout.get_partition hs hj
    rcases Nat.lt_or_ge (j + 1 + 1) config.serverId.length with h | h
    · obtain ⟨-, -, hlt⟩ := Layout.get_partition hs h
      rw [hsub hj', hsub h]
      omega
    · have hlt := hmono (show 0 < j by omega) hj
      rw [hsub hj', show j + 1 = n by omega, hlast]
      omega
  · subst hi
    have hlt := hmono (show 1 < n by omega) (by omega)
    have hfirst : config.lengthOf 0 = config.startOf 1 - config.startOf 0 := hsub (by omega)
    rw [show j = n by omega, hlast, hfirst]
    omega

/-- `config'` is the configuration without server `i`. -/
structure Without (config : ConfigMessage) (i : ℕ) (config' : ConfigMessage) : Prop where
  serverId : config'.serverId = config.serverId.eraseIdx i
  partition : config'.partition = config.partition.eraseIdx i
  serverNum : config'.serverNum = config'.serverId.length
  keyRange : config'.keyRange = config.keyRange

theorem Without.length (h : Without config i config') (hi : i < config.serverId.length) :
    config'.serverId.length = config.serverId.length - 1 := by
  rw [h.serverId, List.length_eraseIdx, if_pos hi]

theorem Without.idAt (h : Without config i config') (u : ℕ) :
    config'.idAt u = config.idAt (skip i u) := by
  rw [ConfigMessage.idAt, ConfigMessage.idAt, h.serverId, List.getElem?_eraseIdx, skip]
  split <;> rfl

theorem Without.startOf (h : Without config i config') (u : ℕ) :
    config'.startOf u = config.startOf (skip i u) := by
  rw [ConfigMessage.startOf, ConfigMessage.startOf, h.partition, List.getElem?_eraseIdx, skip]
  split <;> rfl

include hs in
theorem Without.rangesOk (h : Without config i config') (hi : i < config.serverId.length) :
    config'.RangesOk := by
  refine ⟨h.serverNum, ?_, ?_, ?_⟩
  · rw [h.serverId]
    exact hs.nodup.sublist (List.eraseIdx_sublist _ _)
  · rw [h.length hi, h.partition, List.length_eraseIdx, hs.partition, if_pos hi]
  · rw [h.partition, h.keyRange]
    exact fun b hb ↦ hs.boundary b (List.mem_of_mem_eraseIdx hb)

include hs hp hsame hinc in
/-- **The range of the dead server goes to the one before it.** -/
theorem Without.lengthOf (h : Without config i config') (hthree : 3 ≤ config.serverId.length)
    (hi : i < config.serverId.length) {u : ℕ} (hu : u < config.serverId.length - 1) :
    config'.lengthOf u = config.lengthOf (skip i u)
      + if (skip i u + 1) % config.serverId.length = i then config.lengthOf i else 0 := by
  have hlength : config'.lengthOf u = Circle.offset config.keyRange (config.startOf (skip i u))
      (config.startOf (skip i ((u + 1) % (config.serverId.length - 1)))) := by
    rw [ConfigMessage.lengthOf, h.length hi, h.startOf, h.startOf, h.keyRange]
    rfl
  have hpos := Layout.keyRange_pos hs hi
  rw [hlength, skip_next hi hu]
  split
  · rename_i hnext
    have hadd := lengthOf_add_lt hs hp hsame hinc hthree (skip_lt hu) hnext
    simp only [ConfigMessage.lengthOf] at hadd ⊢
    rw [hnext] at hadd ⊢
    exact Circle.offset_add_offset hpos hadd
  · rw [Int.add_zero]
    rfl

end

/-! ## The values before the failure -/

section

variable {config : ConfigMessage} {p : Partition} {server : Int → Server F}

theorem get_idAt {i : ℕ} (hi : i < config.serverId.length) :
    Checked.get config.serverId i = .ok (config.idAt i) := by
  rw [ConfigMessage.idAt, List.getElem?_eq_getElem hi, Option.getD_some]
  exact Checked.get_natCast (List.getElem?_eq_getElem hi)

theorem valueAt_eq {i : ℕ} (hi : i < config.serverId.length) {key : Int}
    (howner : p.getServerByKey key = i) : valueAt config.serverId p server key
      = Checked.get (server (config.idAt i)).parameters (Circle.offset
          (server (config.idAt i)).keyRange (server (config.idAt i)).startKey key) := by
  rw [valueAt, howner, get_idAt hi, Checked.ok_bind]
  rfl

theorem next_before {i t : ℕ} (ht : t < config.serverId.length) :
    (config.before i (t + 1) + 1) % config.serverId.length = config.before i t := by
  rw [ConfigMessage.before, ConfigMessage.before, Nat.mod_add_mod]
  congr 1
  omega

theorem before_lt {i t : ℕ} (hi : i < config.serverId.length) :
    config.before i t < config.serverId.length :=
  Nat.mod_lt _ (by omega)

@[simp] theorem before_zero {i : ℕ} (hi : i < config.serverId.length) : config.before i 0 = i := by
  rw [ConfigMessage.before, Nat.sub_zero, Nat.add_mod_right, Nat.mod_eq_of_lt hi]

/-- The range of the server `t + 1` places before ends where the one after it begins. -/
theorem lengthOf_before {i t : ℕ} (ht : t < config.serverId.length) :
    config.lengthOf (config.before i (t + 1)) = Circle.offset config.keyRange
      (config.startOf (config.before i (t + 1))) (config.startOf (config.before i t)) := by
  rw [ConfigMessage.lengthOf, next_before ht]
  rfl

variable (hh : config.Healthy server) (hp : p.Ordered) (hsame : config.SamePartition p)

include hh

theorem ConfigMessage.Healthy.three_le : 3 ≤ config.serverId.length := by
  have hnum := hh.servers.serverNum
  have hthree := hh.three
  omega

theorem ConfigMessage.Healthy.startOf_ne {n : ℕ} (hn : config.serverId.length = n + 1) :
    config.startOf 0 ≠ config.startOf n := by
  have hthree := hh.three_le
  exact (startOf_strictMono hh.servers.toRangesOk hh.increasing (by omega) (by omega)).ne

include hp hsame

/-- The parameters of a server are the values from its boundary on. -/
theorem reads_parameters {i : ℕ} (hi : i < config.serverId.length) :
    Circle.Reads (fun key ↦ (valueAt config.serverId p server key).toOption) config.keyRange
      (config.startOf i) (server (config.idAt i)).parameters := by
  intro o ho
  obtain ⟨n, hn⟩ : ∃ n, config.serverId.length = n + 1 := ⟨config.serverId.length - 1, by omega⟩
  have hst := hh.stands i hi
  have hpos := Layout.keyRange_pos hh.servers.toRangesOk hi
  have hlen := hst.parameters
  have hoK : (o : Int) < config.keyRange := by
    have hle : config.lengthOf i < config.keyRange := Circle.offset_lt hpos
    omega
  have hoffset : Circle.offset config.keyRange (config.startOf i)
      ((config.startOf i + o) % config.keyRange) = o := Circle.offset_add (by omega) hoK
  have hk : p.InRange ((config.startOf i + o) % config.keyRange) := by
    rw [Partition.InRange, hsame.keyRange]
    exact ⟨Int.emod_nonneg _ (by omega), Int.emod_lt_of_pos _ hpos⟩
  have howner := (getServerByKey_eq_iff hh.servers.toRangesOk hp hsame hn (hh.startOf_ne hn) hi
    hk).2 (by rw [hoffset]; omega)
  simp only
  rw [valueAt_eq hi howner, hst.startKey, hst.keyRange, hoffset,
    Checked.get_natCast (List.getElem?_eq_getElem ho), List.getElem?_eq_getElem ho]
  rfl

/-- Every key has an owner, and a value. -/
theorem exists_valueAt {key : Int} (hkey : p.InRange key) :
    ∃ k < config.serverId.length, p.getServerByKey key = k ∧
      ∃ x, valueAt config.serverId p server key = .ok x := by
  have hthree := hh.three_le
  obtain ⟨n, hn⟩ : ∃ n, config.serverId.length = n + 1 := ⟨config.serverId.length - 1, by omega⟩
  have hnum := serverNum_eq hh.servers.toRangesOk hsame
  obtain ⟨hnonneg, hlt⟩ := p.serverOf_bounds (p.slot_le key)
  have howner : p.getServerByKey key = ((p.serverOf (p.slot key)).toNat : ℕ) := by
    rw [Partition.getServerByKey_eq hp hkey, Int.toNat_of_nonneg hnonneg]
  have hk : (p.serverOf (p.slot key)).toNat < config.serverId.length := by omega
  refine ⟨_, hk, howner, ?_⟩
  have hst := hh.stands _ hk
  have hrange := (getServerByKey_eq_iff hh.servers.toRangesOk hp hsame hn (hh.startOf_ne hn) hk
    hkey).1 howner
  have hoffset := Circle.offset_nonneg (K := config.keyRange)
    (a := config.startOf (p.serverOf (p.slot key)).toNat) (k := key)
    (by rw [Partition.InRange, hsame.keyRange] at hkey; omega)
  rw [← hst.parameters] at hrange
  rw [valueAt_eq hk howner, hst.startKey, hst.keyRange]
  exact Checked.exists_get hoffset hrange

/-- The backups of a server are the values behind its boundary. -/
theorem readsBack_backups {j : ℕ} (hj : j < config.serverId.length) :
    ∀ (m s : ℕ) (a : Int), s + m < config.serverId.length →
      a % config.keyRange = config.startOf (config.before j s) % config.keyRange →
      Circle.ReadsBack (fun key ↦ (valueAt config.serverId p server key).toOption)
        config.keyRange a ((List.range' s m).map fun t ↦
          (server (config.idAt (config.before j (t + 1)))).parameters) := by
  intro m
  induction m with
  | zero => exact fun s a _ _ ↦ trivial
  | succ m ih =>
    intro s a hs ha
    have hlt := before_lt (t := s + 1) hj
    have hlen := (hh.stands _ hlt).parameters
    have hback : (a - config.lengthOf (config.before j (s + 1))) % config.keyRange
        = config.startOf (config.before j (s + 1)) % config.keyRange := by
      have hadd := Circle.add_offset config.keyRange (config.startOf (config.before j (s + 1)))
        (config.startOf (config.before j s))
      rw [← ha] at hadd
      rw [lengthOf_before (by omega), ← (Int.emod_sub_cancel_right _).2 hadd, Int.add_sub_cancel]
    rw [List.range'_succ, List.map_cons]
    refine ⟨?_, ?_⟩
    · rw [hlen]
      exact (reads_parameters hh hp hsame hlt).congr hback.symm
    · rw [hlen]
      exact ih (s + 1) _ (by omega) hback

end

/-! ## After the failure -/

namespace ConfigMessage

/-- The server before server `i`, which inherits its range. -/
def heir (config : ConfigMessage) (i : ℕ) : ℕ := config.before i 1

/-- How much the heir of server `i` puts in front of its parameters: backups, until it is as much as
the range of server `i`, or all of them. -/
def shiftOf (config : ConfigMessage) (i : ℕ) : Int :=
  Circle.shift ((List.range config.backupSize.toNat).map fun t ↦
    config.lengthOf (config.before (config.heir i) (t + 1))) (config.lengthOf i)

/-- The values of server `i` and of its heir repeat what stands as far before them as the parameters
of the heir are moved, and these are moved by at least the range of server `i`. -/
structure Repeats (config : ConfigMessage) (p : Partition) (server : Int → Server F) (i : ℕ) :
    Prop where
  fits : config.lengthOf i ≤ config.shiftOf i
  values : ∀ key, 0 ≤ key → key < config.keyRange →
    p.getServerByKey key = config.heir i ∨ p.getServerByKey key = i →
    valueAt config.serverId p server ((key - config.shiftOf i) % config.keyRange)
      = valueAt config.serverId p server key

end ConfigMessage

section

variable {config config' : ConfigMessage} {p p' : Partition} {server : Int → Server F} {i : ℕ}

theorem heir_eq_iff {k : ℕ} (hk : k < config.serverId.length) (hi : i < config.serverId.length) :
    (k + 1) % config.serverId.length = i ↔ k = config.heir i := by
  have hheir : config.heir i < config.serverId.length := before_lt hi
  have hnext : (config.heir i + 1) % config.serverId.length = i := by
    rw [ConfigMessage.heir, next_before (by omega), before_zero hi]
  constructor
  · intro h
    rw [← hnext, next_eq hk, next_eq hheir] at h
    split at h <;> split at h <;> omega
  · rintro rfl
    exact hnext

/-- A healthy cluster has lost server `i`, and the master has taken it out. -/
structure Failure (config : ConfigMessage) (p : Partition) (server : Int → Server F) (i : ℕ)
    (config' : ConfigMessage) (p' : Partition) : Prop where
  healthy : config.Healthy server
  ordered : p.Ordered
  same : config.SamePartition p
  lt : i < config.serverId.length
  without : Without config i config'
  workers : config'.workerId = config.workerId
  ordered' : p'.Ordered
  same' : config'.SamePartition p'

namespace Failure

variable (hf : Failure config p server i config' p')

include hf

theorem ranges : config.RangesOk := hf.healthy.servers.toRangesOk

theorem keyRange_pos : 0 < config.keyRange := Layout.keyRange_pos hf.ranges hf.lt

theorem heir_lt : config.heir i < config.serverId.length := before_lt hf.lt

theorem next_heir : (config.heir i + 1) % config.serverId.length = i :=
  (heir_eq_iff hf.heir_lt hf.lt).2 rfl

theorem heir_ne : config.heir i ≠ i := by
  have hthree := hf.healthy.three_le
  have hnext := hf.next_heir
  rw [next_eq hf.heir_lt] at hnext
  split at hnext <;> omega

/-- The range of the heir ends where that of server `i` begins. -/
theorem lengthOf_heir : config.lengthOf (config.heir i) = Circle.offset config.keyRange
    (config.startOf (config.heir i)) (config.startOf i) := by
  rw [ConfigMessage.lengthOf, hf.next_heir]
  rfl

theorem lengthOf_pos {k : ℕ} (hk : k < config.serverId.length) : 0 < config.lengthOf k :=
  Rpscc.lengthOf_pos hf.ranges hf.ordered hf.same hf.healthy.increasing
    (le_trans (by omega) hf.healthy.three_le) hk

theorem lengthOf_heir_add_lt :
    config.lengthOf (config.heir i) + config.lengthOf i < config.keyRange :=
  lengthOf_add_lt hf.ranges hf.ordered hf.same hf.healthy.increasing hf.healthy.three_le hf.heir_lt
    hf.next_heir

theorem lt_length {u : ℕ} (hu : u < config.serverId.length - 1) : u < config'.serverId.length := by
  rw [hf.without.length hf.lt]
  exact hu

/-- The range of a server that survives. -/
theorem lengthOf_eq {u : ℕ} (hu : u < config.serverId.length - 1) :
    config'.lengthOf u = config.lengthOf (skip i u)
      + if skip i u = config.heir i then config.lengthOf i else 0 := by
  rw [hf.without.lengthOf hf.ranges hf.ordered hf.same hf.healthy.increasing hf.healthy.three_le
    hf.lt hu]
  simp only [heir_eq_iff (skip_lt hu) hf.lt]

/-- A server that survives is listed under its own id. -/
theorem localId_survivor {u : ℕ} (hu : u < config.serverId.length - 1)
    (hu' : u < config'.serverId.length) :
    (server (config'.idAt u)).localId = config'.serverId[u] := by
  have hst := hf.healthy.stands (skip i u) (skip_lt hu)
  rw [← hf.without.idAt] at hst
  rw [hst.localId, ← hf.without.idAt, ConfigMessage.idAt,
    List.getElem?_eq_getElem hu', Option.getD_some]

/-- What a server that survives is reconfigured to, if its new range fits. -/
theorem reconfigure_survivor {u : ℕ} (hu : u < config.serverId.length - 1)
    (hfits : config'.RangeFits u) :
    ∃ s', (server (config'.idAt u)).reconfigure config' = .ok (s', []) ∧
      s'.startKey = config.startOf (skip i u) ∧ s'.keyRange = config.keyRange ∧
      s'.parameters = Circle.splice (config'.lengthOf u)
        ((List.range config.backupSize.toNat).map fun t ↦
          (server (config.idAt (config.before (skip i u) (t + 1)))).parameters)
        (server (config.idAt (skip i u))).parameters := by
  have h := hf.without
  have hst := hf.healthy.stands (skip i u) (skip_lt hu)
  rw [← h.idAt] at hst
  have hu' := hf.lt_length hu
  have hnum : (server (config'.idAt u)).agentNum.toNat ≤ config'.workerId.length := by
    rw [hst.agentNum, hf.workers, hf.healthy.workers.workerNum, Int.toNat_natCast]
  have hlength : (server (config'.idAt u)).backupParameters.length
      = (server (config'.idAt u)).backupSize.toNat := by
    rw [hst.backups, hst.backupSize, List.length_map, List.length_range]
  obtain ⟨s', hs', hstart, -, hrange, hparams⟩ := Server.reconfigure_ok
    (h.rangesOk hf.ranges hf.lt) hu' hfits (hf.localId_survivor hu hu') hst.pullRequest
    (hf.workers ▸ hst.agentIds) (hf.workers ▸ hst.idToIndex) hnum hlength.ge
  refine ⟨s', hs', hstart.trans (h.startOf u), hrange.trans h.keyRange, ?_⟩
  rw [hparams, ← hlength, List.take_length, hst.backups, ← h.idAt]

/-- The survivors whose reconfiguration ends are those whose new range fits. -/
theorem exists_reconfigure_iff {u : ℕ} (hu : u < config.serverId.length - 1) :
    (∃ s', (server (config'.idAt u)).reconfigure config' = .ok (s', [])) ↔
      config'.RangeFits u := by
  constructor
  · rintro ⟨s', hs'⟩
    exact Server.rangeFits_of_reconfigure (hf.without.rangesOk hf.ranges hf.lt) (hf.lt_length hu)
      (hf.localId_survivor hu (hf.lt_length hu)) hs'
  · intro hfits
    obtain ⟨s', hs', -⟩ := hf.reconfigure_survivor hu hfits
    exact ⟨s', hs'⟩

/-- A key is sent to the server whose new range contains it. -/
theorem getServerByKey_iff {u : ℕ} (hu : u < config.serverId.length - 1) {key : Int}
    (hk : p.InRange key) :
    p'.getServerByKey key = u ↔ Circle.offset config.keyRange (config.startOf (skip i u)) key
      < config.lengthOf (skip i u)
        + if skip i u = config.heir i then config.lengthOf i else 0 := by
  have hthree := hf.healthy.three_le
  have hlength := hf.without.length hf.lt
  have hne : config'.startOf 0 ≠ config'.startOf (config.serverId.length - 2) := by
    rw [hf.without.startOf, hf.without.startOf]
    refine (startOf_strictMono hf.ranges hf.healthy.increasing ?_ (skip_lt (by omega))).ne
    simp only [skip]
    split <;> split <;> omega
  have hk' : p'.InRange key := by
    rw [Partition.InRange, hf.same'.keyRange, hf.without.keyRange, ← hf.same.keyRange]
    exact hk
  rw [getServerByKey_eq_iff (hf.without.rangesOk hf.ranges hf.lt) hf.ordered' hf.same' (by omega)
    hne (by omega) hk', hf.without.startOf, hf.without.keyRange, hf.lengthOf_eq hu]

/-- **The keys of the dead server go to its heir**, and the others stay where they are. -/
theorem getServerByKey_eq {k : ℕ} (hk : k < config.serverId.length) {key : Int}
    (hkey : p.InRange key) (howner : p.getServerByKey key = k) :
    ∃ u < config.serverId.length - 1, skip i u = (if k = i then config.heir i else k) ∧
      p'.getServerByKey key = u := by
  obtain ⟨n, hn⟩ : ∃ n, config.serverId.length = n + 1 := ⟨config.serverId.length - 1, by omega⟩
  have hheir := hf.heir_lt
  have hne := hf.heir_ne
  have hnonneg : 0 ≤ config.lengthOf i := Circle.offset_nonneg hf.keyRange_pos
  have hrange := (getServerByKey_eq_iff hf.ranges hf.ordered hf.same hn (hf.healthy.startOf_ne hn)
    hk hkey).1 howner
  have hlt : (if k = i then config.heir i else k) < config.serverId.length := by
    split <;> omega
  obtain ⟨u, hu, hskip⟩ := exists_skip_eq hf.lt hlt (by split <;> omega)
  refine ⟨u, hu, hskip, ?_⟩
  rw [hf.getServerByKey_iff hu hkey, hskip]
  by_cases hki : k = i
  · subst hki
    have hadd := hf.lengthOf_heir_add_lt
    rw [if_pos rfl, if_pos rfl]
    rw [hf.lengthOf_heir] at hadd ⊢
    rw [Circle.offset_add_offset (b := config.startOf k) hf.keyRange_pos (by omega)]
    omega
  · rw [if_neg hki]
    split <;> omega

/-- The keys of the heir after the failure. -/
theorem offset_heir_lt_iff {key : Int} (hkey : p.InRange key) :
    Circle.offset config.keyRange (config.startOf (config.heir i)) key
        < config.lengthOf (config.heir i) + config.lengthOf i
      ↔ p.getServerByKey key = config.heir i ∨ p.getServerByKey key = i := by
  obtain ⟨v, hv, hskip⟩ := exists_skip_eq hf.lt hf.heir_lt hf.heir_ne
  have hrange := hf.getServerByKey_iff hv hkey
  rw [hskip, if_pos rfl] at hrange
  obtain ⟨k, hk, howner, -⟩ := exists_valueAt hf.healthy hf.ordered hf.same hkey
  obtain ⟨u, -, hskip', howner'⟩ := hf.getServerByKey_eq hk hkey howner
  have hiff : u = v ↔ k = config.heir i ∨ k = i := by
    rw [← hskip] at hskip' ⊢
    have hne := skip_ne i v
    simp only [skip] at hskip' hne ⊢
    split_ifs at * <;> omega
  rw [← hrange, howner, howner']
  omega

omit hf in
/-- The parameters of the heir after the failure. -/
def heirParameters (config : ConfigMessage) (server : Int → Server F) (i : ℕ) : List F :=
  Circle.splice (config.lengthOf (config.heir i) + config.lengthOf i)
    ((List.range config.backupSize.toNat).map fun t ↦
      (server (config.idAt (config.before (config.heir i) (t + 1)))).parameters)
    (server (config.idAt (config.heir i))).parameters

/-- **The heir has put `shiftOf i` values in front of its own**, so that it reads from further back
than its boundary. -/
theorem heirParameters_spec :
    ((heirParameters config server i).length : Int)
        = config.lengthOf (config.heir i) + config.shiftOf i ∧
      Circle.Reads (fun key ↦ (valueAt config.serverId p server key).toOption) config.keyRange
        (config.startOf (config.heir i) - config.shiftOf i) (heirParameters config server i) := by
  have hh := hf.healthy
  have hlen := (hh.stands _ hf.heir_lt).parameters
  have hlt := hh.servers.backup_lt
  have hnonneg := hh.servers.backup_nonneg
  have hnum := hh.servers.serverNum
  have hback : Circle.ReadsBack (fun key ↦ (valueAt config.serverId p server key).toOption)
      config.keyRange (config.startOf (config.heir i)) ((List.range config.backupSize.toNat).map
        fun t ↦ (server (config.idAt (config.before (config.heir i) (t + 1)))).parameters) := by
    rw [List.range_eq_range']
    refine readsBack_backups hh hf.ordered hf.same hf.heir_lt _ 0 _ (by omega) ?_
    rw [ConfigMessage.before, Nat.sub_zero, Nat.add_mod_right, Nat.mod_eq_of_lt hf.heir_lt]
  have hshift : Circle.shift (((List.range config.backupSize.toNat).map fun t ↦
      (server (config.idAt (config.before (config.heir i) (t + 1)))).parameters).map
        fun ys ↦ (ys.length : Int)) (config.lengthOf (config.heir i) + config.lengthOf i
          - (server (config.idAt (config.heir i))).parameters.length) = config.shiftOf i := by
    rw [hlen, add_sub_cancel_left, List.map_map, ConfigMessage.shiftOf]
    refine congrArg (fun l ↦ Circle.shift l _) (List.map_congr_left fun t _ ↦ ?_)
    exact (hh.stands _ (before_lt hf.heir_lt)).parameters
  refine ⟨?_, ?_⟩
  · rw [heirParameters, Circle.length_splice, hshift, hlen]
  · rw [← hshift]
    exact (reads_parameters hh hf.ordered hf.same hf.heir_lt).splice _ hback

/-! ## The values after the failure -/

variable {server' : Int → Server F} (hserver' : ∀ u < config.serverId.length - 1,
  (server (config'.idAt u)).reconfigure config' = .ok (server' (config'.idAt u), []))

include hserver'

theorem valueAt_survivor {u : ℕ} (hu : u < config.serverId.length - 1) {key : Int}
    (howner : p'.getServerByKey key = u) :
    valueAt config'.serverId p' server' key
      = Checked.get (Circle.splice (config'.lengthOf u)
          ((List.range config.backupSize.toNat).map fun t ↦
            (server (config.idAt (config.before (skip i u) (t + 1)))).parameters)
          (server (config.idAt (skip i u))).parameters)
          (Circle.offset config.keyRange (config.startOf (skip i u)) key) := by
  have hfits := (hf.exists_reconfigure_iff hu).1 ⟨_, hserver' u hu⟩
  obtain ⟨s', hs', hstart, hrange, hparams⟩ := hf.reconfigure_survivor hu hfits
  have heq : server' (config'.idAt u) = s' := by
    have hinj := (hserver' u hu).symm.trans hs'
    exact (Prod.mk.inj (Except.ok.inj hinj)).1
  rw [valueAt_eq (hf.lt_length hu) howner, heq, hstart, hrange, hparams]

/-- A key that changes hands with neither range keeps its value. -/
theorem valueAt_of_ne {k : ℕ} (hk : k < config.serverId.length) (hki : k ≠ i)
    (hkh : k ≠ config.heir i) {key : Int} (hkey : p.InRange key)
    (howner : p.getServerByKey key = k) :
    valueAt config'.serverId p' server' key = valueAt config.serverId p server key := by
  obtain ⟨u, hu, hskip, howner'⟩ := hf.getServerByKey_eq hk hkey howner
  rw [if_neg hki] at hskip
  have hst := hf.healthy.stands k hk
  have hlength : config'.lengthOf u = config.lengthOf k := by
    rw [hf.lengthOf_eq hu, hskip, if_neg hkh, Int.add_zero]
  rw [hf.valueAt_survivor hserver' hu howner', valueAt_eq hk howner, hskip, hlength,
    Circle.splice_of_length _ hst.parameters, hst.startKey, hst.keyRange]

/-- The value of a key of the heir is the one the key `shiftOf i` before it had, if there is one. -/
theorem valueAt_heir {key : Int} (hkey : p.InRange key)
    (howner : p.getServerByKey key = config.heir i ∨ p.getServerByKey key = i) (x : F) :
    valueAt config'.serverId p' server' key = .ok x ↔
      Circle.offset config.keyRange (config.startOf (config.heir i)) key
        < config.lengthOf (config.heir i) + config.shiftOf i ∧
      valueAt config.serverId p server ((key - config.shiftOf i) % config.keyRange) = .ok x := by
  obtain ⟨u, hu, hskip, howner'⟩ : ∃ u < config.serverId.length - 1, skip i u = config.heir i ∧
      p'.getServerByKey key = u := by
    rcases howner with howner | howner
    · have h := hf.getServerByKey_eq hf.heir_lt hkey howner
      rwa [if_neg hf.heir_ne] at h
    · have h := hf.getServerByKey_eq hf.lt hkey howner
      rwa [if_pos rfl] at h
  have hvalue : valueAt config'.serverId p' server' key
      = Checked.get (heirParameters config server i)
          (Circle.offset config.keyRange (config.startOf (config.heir i)) key) := by
    rw [hf.valueAt_survivor hserver' hu howner', hf.lengthOf_eq hu, hskip, if_pos rfl]
    rfl
  obtain ⟨hlen, hreads⟩ := hf.heirParameters_spec
  have hnonneg : 0 ≤ Circle.offset config.keyRange (config.startOf (config.heir i)) key :=
    Circle.offset_nonneg hf.keyRange_pos
  rw [hvalue, Checked.get_eq_ok_iff, ← hlen]
  constructor
  · rintro ⟨-, hget⟩
    obtain ⟨hlt, -⟩ := List.getElem?_eq_some_iff.1 hget
    have hlt' : Circle.offset config.keyRange (config.startOf (config.heir i)) key
        < (heirParameters config server i).length := by omega
    have hread := hreads.getElem?_offset hf.keyRange_pos hlt'
    rw [hget] at hread
    exact ⟨hlt', Checked.toOption_eq_some.1 hread⟩
  · rintro ⟨hlt, hold⟩
    have hread := hreads.getElem?_offset hf.keyRange_pos hlt
    rw [← hread]
    exact ⟨hnonneg, Checked.toOption_eq_some.2 hold⟩

/-- The value of every key is what it was exactly when the values repeat. -/
theorem keeps_iff :
    (∀ key, 0 ≤ key → key < config.keyRange →
      ∃ x, valueAt config.serverId p server key = .ok x ∧
        valueAt config'.serverId p' server' key = .ok x) ↔ config.Repeats p server i := by
  have hadd := hf.lengthOf_heir_add_lt
  have hpos := hf.keyRange_pos
  have hlength := hf.lengthOf_pos hf.lt
  have hlength' := hf.lengthOf_pos hf.heir_lt
  constructor
  · intro hall
    refine ⟨?_, fun key hnonneg hlt howner ↦ ?_⟩
    · -- the last key of the heir has a value
      have hlast : Circle.offset config.keyRange (config.startOf (config.heir i))
          ((config.startOf (config.heir i)
            + (config.lengthOf (config.heir i) + config.lengthOf i - 1)) % config.keyRange)
          = config.lengthOf (config.heir i) + config.lengthOf i - 1 :=
        Circle.offset_add (by omega) (by omega)
      generalize hkey' : (config.startOf (config.heir i)
        + (config.lengthOf (config.heir i) + config.lengthOf i - 1)) % config.keyRange = key
        at hlast
      have hnonneg : 0 ≤ key := hkey' ▸ Int.emod_nonneg _ hpos.ne'
      have hlt : key < config.keyRange := hkey' ▸ Int.emod_lt_of_pos _ hpos
      have hkey : p.InRange key := ⟨hnonneg, hf.same.keyRange ▸ hlt⟩
      obtain ⟨x, -, hnew⟩ := hall key hnonneg hlt
      have hread := ((hf.valueAt_heir hserver' hkey
        ((hf.offset_heir_lt_iff hkey).1 (by omega)) x).1 hnew).1
      omega
    · have hkey : p.InRange key := ⟨hnonneg, hf.same.keyRange ▸ hlt⟩
      obtain ⟨x, hold, hnew⟩ := hall key hnonneg hlt
      rw [hold]
      exact ((hf.valueAt_heir hserver' hkey howner x).1 hnew).2
  · intro hrep key hnonneg hlt
    have hkey : p.InRange key := ⟨hnonneg, hf.same.keyRange ▸ hlt⟩
    obtain ⟨k, hk, howner, x, hx⟩ := exists_valueAt hf.healthy hf.ordered hf.same hkey
    refine ⟨x, hx, ?_⟩
    by_cases hkm : k = config.heir i ∨ k = i
    · have howner' : p.getServerByKey key = config.heir i ∨ p.getServerByKey key = i := by
        rw [howner]
        omega
      refine (hf.valueAt_heir hserver' hkey howner' x).2 ⟨?_, ?_⟩
      · have hoffset := (hf.offset_heir_lt_iff hkey).2 howner'
        have hfits := hrep.fits
        omega
      · rw [hrep.values key hnonneg hlt howner', hx]
    · rw [not_or] at hkm
      rw [hf.valueAt_of_ne hserver' hk hkm.2 hkm.1 hkey howner, hx]

end Failure

/-- Taking a server out of a healthy cluster leaves a configuration the agents accept. -/
theorem ConfigMessage.Healthy.failure (hh : config.Healthy server)
    (hp : Partition.initializePartition config.keyRange config.serverNum config.partition = .ok p)
    (hi : i < config.serverId.length) (h : Without config i config')
    (hworkers : config'.workerId = config.workerId) :
    ∃ p', Partition.initializePartition config'.keyRange config'.serverNum config'.partition
      = .ok p' ∧ Failure config p server i config' p' := by
  have hthree := hh.three_le
  have hlen := hh.servers.partition
  have hnum := hh.servers.serverNum
  have hr' := h.rangesOk hh.servers.toRangesOk hi
  have hlen' := hr'.partition
  have hnum' := hr'.serverNum
  have hlength := h.length hi
  obtain ⟨q, hq, hrange, -, hvec⟩ := Partition.initializePartition_ok config.keyRange
    (show 0 < config.serverNum by omega)
    (show (config.partition.length : Int) = config.serverNum by omega)
  obtain rfl : q = p := Except.ok.inj (hq.symm.trans hp)
  obtain ⟨p', hp', hrange', -, hvec'⟩ := Partition.initializePartition_ok config'.keyRange
    (show 0 < config'.serverNum by omega)
    (show (config'.partition.length : Int) = config'.serverNum by omega)
  refine ⟨p', hp', hh, ?_, ⟨hrange, hvec⟩, hi, h, hworkers, ?_, ⟨hrange', hvec'⟩⟩
  · rw [Partition.Ordered, hvec]
    exact hh.increasing.imp le_of_lt
  · rw [Partition.Ordered, hvec', h.partition]
    exact (hh.increasing.imp le_of_lt).sublist (List.eraseIdx_sublist _ _)

/-! ## Main results -/

/-- **When the parameters survive the death of a server.**  Server `d` of a healthy cluster dies,
the master takes it out, and every other server is reconfigured.  All of this ends exactly when the
new ranges fit; and if it does, every key keeps its value exactly when the values of the dead server
and of the one before it repeat those that stand `shiftOf i` before them. -/
theorem failover_keeps_iff {t : TaskConfig} {d : Int} (hh : config.Healthy server)
    (hp : Partition.initializePartition config.keyRange config.serverNum config.partition = .ok p)
    (hids : t.serverId = config.serverId) (hpart : t.partition = config.partition)
    (hagent : d ∉ t.agentId) (hd : config.serverId[i]? = some d) :
    ∃ t', t.fixConfig [d] = .ok t' ∧ ∀ config', config.FixedBy t' config' →
      ∃ p', Partition.initializePartition config'.keyRange config'.serverNum
          config'.partition = .ok p' ∧
        ((∃ server' : Int → Server F, ∀ id ∈ t'.serverId,
            (server id).reconfigure config' = .ok (server' id, [])) ↔
          ∀ u < config'.serverId.length, config'.RangeFits u) ∧
        ∀ server' : Int → Server F,
          (∀ id ∈ t'.serverId, (server id).reconfigure config' = .ok (server' id, [])) →
          ((∀ key, 0 ≤ key → key < config.keyRange →
            ∃ x, valueAt config.serverId p server key = .ok x ∧
              valueAt t'.serverId p' server' key = .ok x) ↔ config.Repeats p server i) := by
  obtain ⟨hi, -⟩ := List.getElem?_eq_some_iff.1 hd
  have hr := hh.servers.toRangesOk
  have hlen := hr.partition
  refine ⟨_, TaskConfig.fixConfig_server hagent (hids ▸ hr.nodup) (by rw [hids, hpart, hlen])
    (hids ▸ hd), fun config' hfix ↦ ?_⟩
  have h : Without config i config' :=
    ⟨hfix.serverId.trans (by rw [hids]), hfix.partition.trans (by rw [hpart]),
      hfix.serverNum.trans (by rw [hfix.serverId]), hfix.keyRange⟩
  have hlength := h.length hi
  obtain ⟨p', hp', hf⟩ := hh.failure hp hi h hfix.workerId
  have hidAt : ∀ u (hu : u < config'.serverId.length), config'.idAt u = config'.serverId[u] := by
    intro u hu
    rw [ConfigMessage.idAt, List.getElem?_eq_getElem hu, Option.getD_some]
  refine ⟨p', hp', ⟨?_, fun hfits ↦ ?_⟩, fun server' hserver' ↦ ?_⟩
  · rintro ⟨server', hserver'⟩ u hu
    refine (hf.exists_reconfigure_iff (by omega)).1 ⟨_, hserver' _ (hfix.serverId ▸ ?_)⟩
    exact hidAt u hu ▸ List.getElem_mem hu
  · have hex : ∀ id, ∃ s', id ∈ config'.serverId →
        (server id).reconfigure config' = .ok (s', []) := by
      intro id
      by_cases hid : id ∈ config'.serverId
      · obtain ⟨u, hu, rfl⟩ := List.getElem_of_mem hid
        obtain ⟨s', hs'⟩ := (hf.exists_reconfigure_iff (by omega)).2 (hfits u hu)
        rw [hidAt u hu] at hs'
        exact ⟨s', fun _ ↦ hs'⟩
      · exact ⟨server id, fun h ↦ absurd h hid⟩
    choose server' hserver' using hex
    exact ⟨server', fun id hid ↦ hserver' id (hfix.serverId ▸ hid)⟩
  · rw [← hfix.serverId]
    refine hf.keeps_iff fun u hu ↦ hserver' _ (hfix.serverId ▸ ?_)
    have hu' : u < config'.serverId.length := by omega
    exact hidAt u hu' ▸ List.getElem_mem hu'

end

/-- Three servers for nine keys, with one backup each. -/
def threeServers : ConfigMessage where
  workerNum := 1
  serverNum := 3
  keyRange := 9
  nodeIpPort := ["10.0.0.1:80", "10.0.0.2:80", "10.0.0.3:80", "10.0.0.4:80", "10.0.0.5:80"]
  partition := [0, 3, 6]
  backupSize := 1
  serverId := [1, 2, 3]
  workerId := [4]
  masterId := [0]
  bound := 1

/-- What is left of them without server `3`. -/
def twoServersLeft : ConfigMessage :=
  { threeServers with serverNum := 2, partition := [0, 3], serverId := [1, 2] }

/-- What the master knows about them. -/
def threeServersTask : TaskConfig where
  workerNum := 1
  serverNum := 3
  keyRange := 9
  backupSize := 1
  partition := [0, 3, 6]
  serverId := [1, 2, 3]
  agentId := [4]
  masterId := [0]
  bound := 1
  configChanged := false

/-- The values of the three keys of a server. -/
def threeValues (value : Int → Int) (id : Int) : List Int :=
  [value (3 * id - 3), value (3 * id - 2), value (3 * id - 1)]

/-- The servers, when the key `k` has the value `value k`. -/
def threeServersWith (value : Int → Int) (id : Int) : Server Int :=
  { Server.blank (F := Int) "10.0.0.1:80" id threeServers with
    localIndex := id - 1
    startKey := 3 * id - 3
    parameterLength := 3
    masterIds := [0]
    serverIds := [1, 2, 3]
    servers := fun id ↦ if 1 ≤ id ∧ id ≤ 3 then some (id - 1) else none
    agentIds := [4]
    parameters := threeValues value id
    backupParameters := [threeValues value (if id = 1 then 3 else id - 1)]
    versionBuffer := [[]]
    finishCount := [0]
    idToIndex := fun a ↦ if a = 4 then some 0 else none }

theorem threeServersWith_healthy (value : Int → Int) :
    threeServers.Healthy (threeServersWith value) := by
  refine ⟨⟨by constructor <;> decide, by decide, by decide⟩, by constructor <;> decide, by decide,
    by decide, by decide, fun i hi ↦ ?_⟩
  have hagents : ∀ a ∈ [(4 : Int)], ∃ k, (if a = 4 then some (0 : Int) else none) = some k := by
    simp
  have hlength : ∀ i < 3, threeServers.lengthOf i = 3 := by decide
  obtain rfl | rfl | rfl : i = 0 ∨ i = 1 ∨ i = 2 := by
    have : threeServers.serverId.length = 3 := rfl
    omega
  all_goals
    exact ⟨rfl, rfl, rfl, (hlength _ (by decide)).symm, rfl, rfl, rfl, rfl, fun _ h ↦ h, hagents⟩

theorem twoServersLeft_fixedBy {t' : TaskConfig} (h : threeServersTask.fixConfig [3] = .ok t') :
    threeServers.FixedBy t' twoServersLeft := by
  cases h
  exact ⟨rfl, rfl, rfl, rfl, rfl, rfl⟩

/-- Values that repeat every three keys survive, since all ranges have three keys. -/
theorem failover_keeps_iff_threes : ∃ t' p p' server',
    threeServersTask.fixConfig [3] = .ok t' ∧
    Partition.initializePartition 9 3 [0, 3, 6] = .ok p ∧
    (∀ id ∈ t'.serverId, (threeServersWith (· % 3) id).reconfigure twoServersLeft
      = .ok (server' id, [])) ∧
    ∀ key, 0 ≤ key → key < 9 →
      ∃ x, valueAt threeServers.serverId p (threeServersWith (· % 3)) key = .ok x ∧
        valueAt t'.serverId p' server' key = .ok x := by
  obtain ⟨p, hp, hvalue⟩ : ∃ p, Partition.initializePartition 9 3 [0, 3, 6] = .ok p ∧
      ∀ key, 0 ≤ key → key < 9 →
        valueAt threeServers.serverId p (threeServersWith (· % 3)) key = .ok (key % 3) := by
    refine ⟨_, rfl, fun key hnonneg hlt ↦ ?_⟩
    interval_cases key <;> rfl
  obtain ⟨t', ht', hall⟩ := failover_keeps_iff (t := threeServersTask) (i := 2) (d := 3)
    (threeServersWith_healthy (· % 3)) hp rfl rfl (by decide) rfl
  obtain ⟨p', -, hends, hkeeps⟩ := hall twoServersLeft (twoServersLeft_fixedBy ht')
  obtain ⟨server', hserver'⟩ := hends.2 (by decide)
  refine ⟨t', p, p', server', ht', hp, hserver',
    (hkeeps server' hserver').2 ⟨by decide, fun key hnonneg hlt _ ↦ ?_⟩⟩
  have hkey : threeServers.keyRange = 9 := rfl
  have hshift : threeServers.shiftOf 2 = 3 := by decide
  rw [hkey] at hlt ⊢
  rw [hshift, hvalue key hnonneg hlt, hvalue _ (by omega) (by omega)]
  exact congrArg Except.ok (by omega)

/-- **The parameters do not survive.**  When every key has itself as its value and server `3` dies,
server `2` takes over its keys, and has the value of key `0` for the key `3`, of which it already
was the owner. -/
theorem failover_loses_parameters : ∃ t' p p' server',
    threeServers.Healthy (threeServersWith fun key ↦ key) ∧
    threeServersTask.fixConfig [3] = .ok t' ∧ threeServers.FixedBy t' twoServersLeft ∧
    Partition.initializePartition threeServers.keyRange threeServers.serverNum
      threeServers.partition = .ok p ∧
    Partition.initializePartition twoServersLeft.keyRange twoServersLeft.serverNum
      twoServersLeft.partition = .ok p' ∧
    (∀ id ∈ t'.serverId, (threeServersWith (fun key ↦ key) id).reconfigure twoServersLeft
      = .ok (server' id, [])) ∧
    valueAt threeServers.serverId p (threeServersWith fun key ↦ key) 3 = .ok 3 ∧
    valueAt t'.serverId p' server' 3 = .ok 0 ∧
    ¬ ∀ key, 0 ≤ key → key < threeServers.keyRange →
      ∃ x, valueAt threeServers.serverId p (threeServersWith fun key ↦ key) key = .ok x ∧
        valueAt t'.serverId p' server' key = .ok x := by
  obtain ⟨t', p, p', s₁, s₂, ht', hids, hp, hp', hs₁, hs₂, hold, hnew⟩ : ∃ t' p p' s₁ s₂,
      threeServersTask.fixConfig [3] = .ok t' ∧ t'.serverId = [1, 2] ∧
      Partition.initializePartition 9 3 [0, 3, 6] = .ok p ∧
      Partition.initializePartition 9 2 [0, 3] = .ok p' ∧
      (threeServersWith (fun key ↦ key) 1).reconfigure twoServersLeft = .ok (s₁, []) ∧
      (threeServersWith (fun key ↦ key) 2).reconfigure twoServersLeft = .ok (s₂, []) ∧
      valueAt threeServers.serverId p (threeServersWith fun key ↦ key) 3 = .ok 3 ∧
      valueAt t'.serverId p' (fun id ↦ if id = 1 then s₁ else s₂) 3 = .ok 0 :=
    ⟨_, _, _, _, _, rfl, rfl, rfl, rfl, rfl, rfl, rfl, rfl⟩
  refine ⟨t', p, p', fun id ↦ if id = 1 then s₁ else s₂, threeServersWith_healthy _, ht',
    twoServersLeft_fixedBy ht', hp, hp', fun id hid ↦ ?_, hold, hnew, fun hall ↦ ?_⟩
  · rw [hids] at hid
    obtain rfl | rfl : id = 1 ∨ id = 2 := by simpa using hid
    · exact hs₁
    · exact hs₂
  · obtain ⟨x, hx, hx'⟩ := hall 3 (by decide) (by decide)
    cases hx.symm.trans hold
    cases hx'.symm.trans hnew

end Rpscc
