import Mathlib.Algebra.BigOperators.Fin
import Rpscc.Agent.Blocks
import Rpscc.Lib.Circle
import Rpscc.Master.TaskConfig
import Rpscc.Server.Ranges

/-!
# Who owns a key

An agent finds the owner of a key by searching the boundaries (`Partition.getServerByKey`), a
server finds its range as a difference of two boundaries modulo the key range
(`Server.initializeServer`).  The two agree (`OwnersAgree`) unless all boundaries are the same: the
difference is then `0`, so every server believes it owns nothing, while the agents send every key
to the last one.  With a single server there is only one boundary, so this always happens.

Above half of the `int32` the server may not get as far: with a key range of `2 ^ 31 - 1` and the
boundaries `1` and `2 ^ 31 - 3`, the difference and the key range have a sum that overflows.
-/

set_option autoImplicit false

namespace Rpscc

variable {F : Type} {config : ConfigMessage} {p : Partition}

/-- The range of the server contains the key, as the offset of the key decides it. -/
def Server.Covers (s : Server F) (keyRange key : Int) : Prop :=
  (key - s.startKey + keyRange) % keyRange < s.parameterLength

/-- The agent and the servers agree on who owns which key; so no key has two owners, and the
lengths of the ranges add up. -/
structure OwnersAgree {n : ℕ} (p : Partition) (server : Fin n → Server F) : Prop where
  owner : ∀ key, p.InRange key → ∀ i : Fin n,
    p.getServerByKey key = (i : ℕ) ↔ (server i).Covers p.keyRange key
  disjoint : ∀ key, p.InRange key → ∀ i j, (server i).Covers p.keyRange key →
    (server j).Covers p.keyRange key → i = j
  sum_length : ∑ i, (server i).parameterLength = p.keyRange

/-! ## The ranges of a partition -/

/-- The partition of the agents is the one of the configuration. -/
structure ConfigMessage.SamePartition (config : ConfigMessage) (p : Partition) : Prop where
  keyRange : p.keyRange = config.keyRange
  partVec : p.partVec = config.partition

section

variable (hs : config.RangesOk) (hp : p.Ordered) (hsame : config.SamePartition p)

include hs hsame

theorem length_partVec : p.partVec.length = config.serverId.length := by
  rw [hsame.partVec, hs.partition]

theorem serverNum_eq : p.serverNum = config.serverId.length := by
  rw [← p.length_eq, length_partVec hs hsame]

include hp

theorem slot_le_iff_lt_startOf {i : ℕ} (hi : i < config.serverId.length) (key : Int) :
    p.slot key ≤ i ↔ key < config.startOf i := by
  have hlt : i < p.partVec.length := length_partVec hs hsame ▸ hi
  rw [Partition.slot_le_iff hp key hlt, ConfigMessage.startOf, ← hsame.partVec,
    List.getElem?_eq_getElem hlt, Option.getD_some]

theorem startOf_mono {i j : ℕ} (hij : i ≤ j) (hj : j < config.serverId.length) :
    config.startOf i ≤ config.startOf j := by
  refine not_lt.1 fun hlt ↦ ?_
  have hslot := (slot_le_iff_lt_startOf hs hp hsame (by omega) _).2 hlt
  exact lt_irrefl _ ((slot_le_iff_lt_startOf hs hp hsame hj _).1 (le_trans hslot hij))

/-- The range of a server other than the last is one slot. -/
theorem offset_lt_lengthOf_iff {i : ℕ} (hi : i + 1 < config.serverId.length) {key : Int}
    (hk : p.InRange key) :
    Circle.offset config.keyRange (config.startOf i) key < config.lengthOf i
      ↔ p.slot key = i + 1 := by
  obtain ⟨-, hnonneg, hlt⟩ := Layout.get_partition hs (show i < config.serverId.length by omega)
  obtain ⟨-, hnonneg', hlt'⟩ := Layout.get_partition hs hi
  rw [Partition.InRange, hsame.keyRange] at hk
  have hlen : config.lengthOf i
      = Circle.offset config.keyRange (config.startOf i) (config.startOf (i + 1)) := by
    rw [ConfigMessage.lengthOf, Nat.mod_eq_of_lt hi]
    rfl
  rw [hlen, Circle.offset_lt_iff hnonneg hlt hnonneg' hlt' hk.1 hk.2,
    if_pos (startOf_mono hs hp hsame (Nat.le_succ i) hi), ← not_lt,
    ← slot_le_iff_lt_startOf hs hp hsame (by omega), ← slot_le_iff_lt_startOf hs hp hsame hi]
  omega

/-- The range of the last server is two slots, unless all boundaries are the same; then it is
empty. -/
theorem offset_lt_lengthOf_last_iff {n : ℕ} (hn : config.serverId.length = n + 1) {key : Int}
    (hk : p.InRange key) :
    Circle.offset config.keyRange (config.startOf n) key < config.lengthOf n
      ↔ config.startOf 0 ≠ config.startOf n ∧ (p.slot key = 0 ∨ p.slot key = n + 1) := by
  obtain ⟨-, hnonneg, hlt⟩ := Layout.get_partition hs (show n < config.serverId.length by omega)
  obtain ⟨-, hnonneg', hlt'⟩ := Layout.get_partition hs (show 0 < config.serverId.length by omega)
  have hle := startOf_mono hs hp hsame (Nat.zero_le n) (by omega)
  have hslot : p.slot key ≤ n + 1 := by
    rw [← hn, ← length_partVec hs hsame]
    exact p.slot_le key
  rw [Partition.InRange, hsame.keyRange] at hk
  have hlen : config.lengthOf n
      = Circle.offset config.keyRange (config.startOf n) (config.startOf 0) := by
    rw [ConfigMessage.lengthOf, hn, Nat.mod_self]
    rfl
  rw [hlen, Circle.offset_lt_iff hnonneg hlt hnonneg' hlt' hk.1 hk.2]
  have hzero := slot_le_iff_lt_startOf hs hp hsame (show 0 < config.serverId.length by omega) key
  have hlast := slot_le_iff_lt_startOf hs hp hsame (show n < config.serverId.length by omega) key
  rcases hle.eq_or_lt with heq | hlt
  · rw [if_pos heq.ge, heq]
    simp only [ne_eq, not_true_eq_false, false_and, iff_false]
    omega
  · rw [if_neg (not_le.2 hlt), ← hzero, ← not_lt, ← hlast]
    have hne : config.startOf 0 ≠ config.startOf n := hlt.ne
    simp only [hne, ne_eq, not_false_eq_true, true_and]
    omega

/-- The range of a server other than the last ends at the next boundary. -/
theorem lengthOf_eq_sub {i : ℕ} (hi : i + 1 < config.serverId.length) :
    config.lengthOf i = config.startOf (i + 1) - config.startOf i := by
  obtain ⟨-, hnonneg, -⟩ := Layout.get_partition hs (show i < config.serverId.length by omega)
  obtain ⟨-, -, hlt⟩ := Layout.get_partition hs hi
  rw [ConfigMessage.lengthOf, Nat.mod_eq_of_lt hi]
  exact Circle.offset_of_le hnonneg hlt (startOf_mono hs hp hsame (Nat.le_succ i) hi)

/-- The range of the last server goes around, unless all boundaries are the same. -/
theorem lengthOf_last {n : ℕ} (hn : config.serverId.length = n + 1)
    (hne : config.startOf 0 ≠ config.startOf n) :
    config.lengthOf n = config.startOf 0 - config.startOf n + config.keyRange := by
  obtain ⟨-, -, hlt⟩ := Layout.get_partition hs (show n < config.serverId.length by omega)
  obtain ⟨-, hnonneg, -⟩ := Layout.get_partition hs (show 0 < config.serverId.length by omega)
  rw [ConfigMessage.lengthOf, hn, Nat.mod_self]
  exact Circle.offset_of_lt hlt hnonneg
    (lt_of_le_of_ne (startOf_mono hs hp hsame (Nat.zero_le n) (by omega)) hne)

/-- The lengths of the ranges add up to the key range, unless all boundaries are the same. -/
theorem sum_lengthOf {n : ℕ} (hn : config.serverId.length = n + 1)
    (hne : config.startOf 0 ≠ config.startOf n) :
    ∑ i ∈ Finset.range (n + 1), config.lengthOf i = config.keyRange := by
  have hstep : ∀ i ∈ Finset.range n,
      config.lengthOf i = config.startOf (i + 1) - config.startOf i := by
    intro i hi
    have hi' := Finset.mem_range.1 hi
    exact lengthOf_eq_sub hs hp hsame (by omega)
  rw [Finset.sum_range_succ, Finset.sum_congr rfl hstep, Finset.sum_range_sub,
    lengthOf_last hs hp hsame hn hne]
  omega

/-- A key is sent to the server whose range contains it, unless all boundaries are the same. -/
theorem getServerByKey_eq_iff {n : ℕ} (hn : config.serverId.length = n + 1)
    (hne : config.startOf 0 ≠ config.startOf n) {i : ℕ} (hi : i < config.serverId.length)
    {key : Int} (hk : p.InRange key) :
    p.getServerByKey key = i
      ↔ Circle.offset config.keyRange (config.startOf i) key < config.lengthOf i := by
  have hnum := serverNum_eq hs hsame
  rw [Partition.getServerByKey_eq hp hk, Partition.serverOf, hnum]
  rcases Nat.lt_or_ge (i + 1) config.serverId.length with hi' | hi'
  · rw [offset_lt_lengthOf_iff hs hp hsame hi' hk]
    split <;> omega
  · obtain rfl : i = n := by omega
    rw [offset_lt_lengthOf_last_iff hs hp hsame hn hk]
    simp only [hne, ne_eq, not_false_eq_true, true_and]
    split <;> omega

/-- **Agents and servers agree exactly when the boundaries are not all the same.** -/
theorem ownersAgree_iff {server : Fin config.serverId.length → Server F} {n : ℕ}
    (hn : config.serverId.length = n + 1) (hstart : ∀ i, (server i).startKey = config.startOf i)
    (hlength : ∀ i, (server i).parameterLength = config.lengthOf i) :
    OwnersAgree p server ↔ config.startOf 0 ≠ config.startOf n := by
  have hnum := serverNum_eq hs hsame
  have hcovers : ∀ (i : Fin config.serverId.length) (key : Int),
      (server i).Covers p.keyRange key
        ↔ Circle.offset config.keyRange (config.startOf i) key < config.lengthOf i := by
    intro i key
    rw [Server.Covers, hstart, hlength, hsame.keyRange]
    rfl
  obtain ⟨-, hnonneg, hlt⟩ := Layout.get_partition hs (show 0 < config.serverId.length by omega)
  constructor
  · intro hagree heq
    -- all boundaries are the same, so that key `0` belongs to the last server
    have hin : p.InRange 0 := by
      rw [Partition.InRange, hsame.keyRange]
      omega
    have howner : p.getServerByKey 0 = ((⟨n, by omega⟩ : Fin config.serverId.length) : ℕ) := by
      have hzero := slot_le_iff_lt_startOf hs hp hsame (show 0 < config.serverId.length by omega) 0
      have hlast := slot_le_iff_lt_startOf hs hp hsame (show n < config.serverId.length by omega) 0
      have hle := p.slot_le 0
      rw [length_partVec hs hsame] at hle
      rw [Partition.getServerByKey_eq hp hin, Partition.serverOf, hnum]
      split <;> simp only <;> omega
    have hcov := (hcovers _ _).1 ((hagree.owner 0 hin _).1 howner)
    exact ((offset_lt_lengthOf_last_iff hs hp hsame hn hin).1 hcov).1 heq
  · intro hne
    have howner : ∀ key, p.InRange key → ∀ i : Fin config.serverId.length,
        p.getServerByKey key = (i : ℕ) ↔ (server i).Covers p.keyRange key := by
      intro key hk i
      rw [hcovers, getServerByKey_eq_iff hs hp hsame hn hne i.isLt hk]
    refine ⟨howner, fun key hk i j hi hj ↦ ?_, ?_⟩
    · have hi' := (howner key hk i).2 hi
      have hj' := (howner key hk j).2 hj
      exact Fin.ext (by omega)
    · simp only [hlength]
      rw [← Finset.sum_range config.lengthOf, hn, sum_lengthOf hs hp hsame hn hne, hsame.keyRange]

end

/-! ## The partitions the master draws -/

/-- What the master has delivered once the cluster is ready: the boundaries of `t`, an id for each
server and each worker. -/
structure TaskConfig.Delivers (t : TaskConfig) (config : ConfigMessage) : Prop where
  serverNum : config.serverNum = t.serverNum
  keyRange : config.keyRange = t.keyRange
  partition : config.partition = t.partition
  length_serverId : (config.serverId.length : Int) = t.serverNum
  nodup_serverId : config.serverId.Nodup
  backup_nonneg : 0 ≤ config.backupSize
  backup_lt : config.backupSize < t.serverNum
  workerNum : config.workerNum.toNat ≤ config.workerId.length

namespace TaskConfig

variable {t : TaskConfig} {draw : ℕ → Int}

/-- A drawn partition makes a proper configuration. -/
theorem Delivers.serversOk (hd : (t.generatePartition draw).Delivers config)
    (hempty : t.partition = []) (hdraw : t.DrawsOk draw) : config.ServersOk := by
  have hpartition : config.partition = drawnPartition t.serverNum.toNat draw :=
    hd.partition.trans (generatePartition_partition hempty draw)
  have hlength : (config.serverId.length : Int) = t.serverNum := hd.length_serverId
  refine ⟨⟨hd.serverNum.trans hlength.symm, hd.nodup_serverId, ?_, ?_⟩, hd.backup_nonneg, ?_⟩
  · rw [hpartition, length_drawnPartition]
    omega
  · intro b hb
    rw [hpartition, mem_drawnPartition] at hb
    obtain ⟨i, hi, rfl⟩ := hb
    have hrange := hdraw i hi
    rw [show config.keyRange = t.keyRange from hd.keyRange]
    omega
  · rw [hd.serverNum]
    exact hd.backup_lt

/-- The agents of a drawn partition have its boundaries, in order. -/
theorem Delivers.initializePartition_ok (hd : (t.generatePartition draw).Delivers config)
    (hempty : t.partition = []) (hpos : 1 ≤ t.serverNum) :
    ∃ p, Partition.initializePartition config.keyRange config.serverNum config.partition = .ok p ∧
      p.Ordered ∧ config.SamePartition p := by
  have hpartition : config.partition = drawnPartition t.serverNum.toNat draw :=
    hd.partition.trans (generatePartition_partition hempty draw)
  have hnum : config.serverNum = t.serverNum := hd.serverNum
  have hlength : (config.partition.length : Int) = config.serverNum := by
    rw [hpartition, length_drawnPartition, hnum]
    omega
  obtain ⟨p, hp, hrange, -, hvec⟩ :=
    Partition.initializePartition_ok config.keyRange (by omega) hlength
  refine ⟨p, hp, ?_, hrange, hvec⟩
  rw [Partition.Ordered, hvec, hpartition]
  exact drawnPartition_pairwise _ _

/-- The first and the last of the sorted draws differ exactly when two draws do. -/
theorem Delivers.startOf_ne_iff (hd : (t.generatePartition draw).Delivers config)
    (hempty : t.partition = []) (hdraw : t.DrawsOk draw) {p : Partition} (hp : p.Ordered)
    (hsame : config.SamePartition p) {n : ℕ} (hn : config.serverId.length = n + 1) :
    config.startOf 0 ≠ config.startOf n ↔
      ∃ i j, i < t.serverNum.toNat ∧ j < t.serverNum.toNat ∧ draw i ≠ draw j := by
  have hs := (hd.serversOk hempty hdraw).toRangesOk
  have hpartition : config.partition = drawnPartition t.serverNum.toNat draw :=
    hd.partition.trans (generatePartition_partition hempty draw)
  have hmem : ∀ i < config.serverId.length, ∃ k < t.serverNum.toNat, draw k = config.startOf i := by
    intro i hi
    have hi' : i < config.partition.length := hs.partition ▸ hi
    rw [ConfigMessage.startOf, List.getElem?_eq_getElem hi', Option.getD_some,
      ← mem_drawnPartition, ← hpartition]
    exact List.getElem_mem hi'
  have hbetween : ∀ k < t.serverNum.toNat,
      config.startOf 0 ≤ draw k ∧ draw k ≤ config.startOf n := by
    intro k hk
    have hk' : draw k ∈ config.partition := hpartition ▸ mem_drawnPartition.2 ⟨k, hk, rfl⟩
    obtain ⟨i, hi, hget⟩ := List.getElem_of_mem hk'
    have hstart : config.startOf i = draw k := by
      rw [ConfigMessage.startOf, List.getElem?_eq_getElem hi, Option.getD_some, hget]
    have hi' : i < config.serverId.length := hs.partition ▸ hi
    rw [← hstart]
    exact ⟨startOf_mono hs hp hsame (Nat.zero_le i) hi',
      startOf_mono hs hp hsame (show i ≤ n by omega) (by omega)⟩
  constructor
  · intro hne
    obtain ⟨i, hi, hi0⟩ := hmem 0 (by omega)
    obtain ⟨j, hj, hjn⟩ := hmem n (by omega)
    exact ⟨i, j, hi, hj, by rwa [hi0, hjn]⟩
  · rintro ⟨i, j, hi, hj, hne⟩ heq
    have h1 := hbetween i hi
    have h2 := hbetween j hj
    exact hne (by omega)

variable [FloatOps F]

/-- **Agents and servers agree on who owns a key exactly when two of the drawn boundaries differ**
and the length of every range can be computed: no difference of neighbouring boundaries and the key
range have a sum that is no `int32`.  In particular they never agree about a cluster with one
server. -/
theorem drawn_owners_agree_iff (hempty : t.partition = []) (hpos : 1 ≤ t.serverNum)
    (hdraw : t.DrawsOk draw) (hd : (t.generatePartition draw).Delivers config)
    (masterIpPort : String) :
    (∃ (p : Partition) (server : Fin config.serverId.length → Server F),
      Partition.initializePartition config.keyRange config.serverNum config.partition = .ok p ∧
      (∀ i : Fin config.serverId.length,
        Server.initializeServer masterIpPort config.serverId[i] config = .ok (server i)) ∧
      OwnersAgree p server) ↔
        (∃ i j, i < t.serverNum.toNat ∧ j < t.serverNum.toNat ∧ draw i ≠ draw j) ∧
        ∀ i < config.serverId.length, config.RangeFits i := by
  have hs := hd.serversOk hempty hdraw
  obtain ⟨p, hinit, hp, hsame⟩ := hd.initializePartition_ok hempty hpos
  have hn : config.serverId.length = (config.serverId.length - 1) + 1 := by
    have hlength : (config.serverId.length : Int) = t.serverNum := hd.length_serverId
    omega
  have hagree : ∀ server : Fin config.serverId.length → Server F,
      (∀ i : Fin config.serverId.length,
        Server.initializeServer masterIpPort config.serverId[i] config = .ok (server i)) →
      (OwnersAgree p server ↔
        ∃ i j, i < t.serverNum.toNat ∧ j < t.serverNum.toNat ∧ draw i ≠ draw j) := by
    intro server hok
    have hrange := fun i : Fin config.serverId.length ↦
      Server.initializeServer_range hs.toRangesOk i.isLt (hok i)
    have hstart : ∀ i, (server i).startKey = config.startOf i := fun i ↦ (hrange i).2.2.2.1
    have hlength : ∀ i, (server i).parameterLength = config.lengthOf i := fun i ↦ (hrange i).2.2.2.2
    rw [ownersAgree_iff hs.toRangesOk hp hsame hn hstart hlength]
    exact hd.startOf_ne_iff hempty hdraw hp hsame hn
  constructor
  · rintro ⟨q, server, hq, hok, howners⟩
    obtain rfl : p = q := Except.ok.inj (hinit.symm.trans hq)
    refine ⟨(hagree server hok).1 howners, fun i hi ↦ ?_⟩
    exact (Server.initializeServer_range hs.toRangesOk hi (hok ⟨i, hi⟩)).1
  · rintro ⟨hdiffer, hfits⟩
    choose server hok using fun i : Fin config.serverId.length ↦
      Server.initializeServer_ok (F := F) hs hd.workerNum hfits masterIpPort i.isLt
    exact ⟨p, server, hinit, hok, (hagree server hok).2 hdiffer⟩

/-- A task for `servers` servers and a hundred keys, before its partition is drawn. -/
def hundredKeys (servers : Int) : TaskConfig where
  workerNum := 1
  serverNum := servers
  keyRange := 100
  backupSize := 0
  partition := []
  serverId := []
  agentId := []
  masterId := [0]
  bound := 1
  configChanged := false

/-- What it delivers to servers with the given ids, with the boundaries `draw`. -/
def hundredKeysConfig (ids : List Int) (draw : ℕ → Int) : ConfigMessage where
  workerNum := 1
  serverNum := ids.length
  keyRange := 100
  nodeIpPort := ["10.0.0.1:80", "10.0.0.2:80", "10.0.0.3:80", "10.0.0.4:80"]
  partition := ((hundredKeys ids.length).generatePartition draw).partition
  backupSize := 0
  serverId := ids
  workerId := [3]
  masterId := [0]
  bound := 1

theorem drawn_owners_agree_iff_two :
    ∃ (p : Partition) (server : Fin 2 → Server Int),
      Partition.initializePartition 100 2 [30, 60] = .ok p ∧
      (∀ i : Fin 2, Server.initializeServer "10.0.0.1:80" [1, 2][i]
        (hundredKeysConfig [1, 2] fun i ↦ if i = 0 then 60 else 30) = .ok (server i)) ∧
      OwnersAgree p server := by
  have hdraw : (hundredKeys 2).DrawsOk fun i ↦ if i = 0 then 60 else 30 := by
    intro i _
    simp only [hundredKeys]
    split <;> decide
  have hd : ((hundredKeys 2).generatePartition fun i ↦ if i = 0 then 60 else 30).Delivers
      (hundredKeysConfig [1, 2] fun i ↦ if i = 0 then 60 else 30) :=
    ⟨rfl, rfl, rfl, rfl, by decide, by decide, by decide, by decide⟩
  exact (drawn_owners_agree_iff (F := Int) rfl (by decide) hdraw hd "10.0.0.1:80").2
    ⟨⟨0, 1, by decide, by decide, by decide⟩, by decide⟩

/-- With all the `int32` as keys, the length of the first of two ranges cannot be computed. -/
example : Server.initializeServer (F := Int) "10.0.0.1:80" 1
    { hundredKeysConfig [1, 2] fun _ ↦ 1 with
      keyRange := 2147483647
      partition := [1, 2147483645] } = .error .overflow := rfl

/-- One server with the boundary `50`: the agents send it key `5`, and it has no room for any
parameter. -/
theorem single_server_owns_nothing :
    ∃ (p : Partition) (s : Server Int),
      Partition.initializePartition 100 1
        ((hundredKeys 1).generatePartition fun _ ↦ 50).partition = .ok p ∧
      Server.initializeServer "10.0.0.1:80" 1 (hundredKeysConfig [1] fun _ ↦ 50) = .ok s ∧
      p.getServerByKey 5 = 0 ∧ s.parameterLength = 0 ∧ ¬ OwnersAgree p fun _ : Fin 1 ↦ s := by
  obtain ⟨p, s, hp, hs, hrange, howner, hlength⟩ : ∃ (p : Partition) (s : Server Int),
      Partition.initializePartition 100 1
        ((hundredKeys 1).generatePartition fun _ ↦ 50).partition = .ok p ∧
      Server.initializeServer "10.0.0.1:80" 1 (hundredKeysConfig [1] fun _ ↦ 50) = .ok s ∧
      p.keyRange = 100 ∧ p.getServerByKey 5 = 0 ∧ s.parameterLength = 0 :=
    ⟨_, _, rfl, rfl, rfl, rfl, rfl⟩
  refine ⟨p, s, hp, hs, howner, hlength, fun hagree ↦ ?_⟩
  have hin : p.InRange 5 := by
    rw [Partition.InRange, hrange]
    decide
  have hcovers : s.Covers p.keyRange 5 := (hagree.owner 5 hin 0).1 howner
  rw [Server.Covers, hlength, hrange] at hcovers
  exact absurd hcovers (not_lt.2 (Int.emod_nonneg _ (by decide)))

end TaskConfig

end Rpscc
