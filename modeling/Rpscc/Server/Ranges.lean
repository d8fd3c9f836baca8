import Rpscc.Server.Basic

/-!
# The range of a server

On a configuration that lists its servers properly (`ConfigMessage.ServersOk`) the loop over the
servers gives server `i` the keys from its own boundary up to the next one around the circle
(`visitServers_visited`).  The length of this range is computed in `int32`, and the code has none
where a sum overflows: `ConfigMessage.RangeFits` says that none does, which is so for all key ranges
up to `2 ^ 30` (`rangeFits_of_le`).  `Server::Initialize` succeeds when the ranges of all servers
fit (`initializeServer_ok`), and only if that of the server itself does (`initializeServer_range`).
-/

set_option autoImplicit false

namespace Rpscc

/-- The servers of a configuration are counted right and pairwise distinct, and there is one
boundary in the key space for each. -/
structure ConfigMessage.RangesOk (config : ConfigMessage) : Prop where
  serverNum : config.serverNum = config.serverId.length
  nodup : config.serverId.Nodup
  partition : config.partition.length = config.serverId.length
  boundary : ∀ b ∈ config.partition, 0 ≤ b ∧ b < config.keyRange

/-- Besides, there are fewer backups than servers. -/
structure ConfigMessage.ServersOk (config : ConfigMessage) : Prop extends config.RangesOk where
  backup_nonneg : 0 ≤ config.backupSize
  backup_lt : config.backupSize < config.serverNum

namespace ConfigMessage

/-- Where the range of server `i` begins. -/
def startOf (config : ConfigMessage) (i : ℕ) : Int := (config.partition[i]?).getD 0

/-- How long it is: up to the boundary of the next server, around the circle. -/
def lengthOf (config : ConfigMessage) (i : ℕ) : Int :=
  (config.startOf ((i + 1) % config.serverId.length) - config.startOf i + config.keyRange)
    % config.keyRange

/-- The sums of `int32` that the length is computed by do not overflow. -/
def RangeFits (config : ConfigMessage) (i : ℕ) : Prop :=
  Checked.IsInt32 (config.startOf ((i + 1) % config.serverId.length) - config.startOf i) ∧
    Checked.IsInt32 (config.startOf ((i + 1) % config.serverId.length) - config.startOf i
      + config.keyRange)

instance (config : ConfigMessage) (i : ℕ) : Decidable (config.RangeFits i) :=
  inferInstanceAs (Decidable (_ ∧ _))

end ConfigMessage

variable {F : Type} [FloatOps F] {config : ConfigMessage}

namespace Layout

theorem get_partition (hs : config.RangesOk) {i : ℕ} (hi : i < config.serverId.length) :
    Checked.get config.partition i = .ok (config.startOf i) ∧
      0 ≤ config.startOf i ∧ config.startOf i < config.keyRange := by
  have hlt : i < config.partition.length := hs.partition ▸ hi
  have hstart : config.startOf i = config.partition[i] := by
    rw [ConfigMessage.startOf, List.getElem?_eq_getElem hlt, Option.getD_some]
  refine ⟨?_, hstart ▸ hs.boundary _ (List.getElem_mem hlt)⟩
  rw [hstart]
  exact Checked.get_natCast (List.getElem?_eq_getElem hlt)

/-- The code computes the range of server `i` exactly if it fits. -/
theorem rangeOf_eq_ok_iff (hs : config.RangesOk) {i : ℕ} (hi : i < config.serverId.length)
    {range : Int × Int} : rangeOf config i = .ok range ↔
      config.RangeFits i ∧ range = (config.startOf i, config.lengthOf i) := by
  have hnext : (i + 1) % config.serverId.length < config.serverId.length :=
    Nat.mod_lt _ (by omega)
  obtain ⟨hget, hnonneg, hlt⟩ := get_partition hs hi
  obtain ⟨hget', hnonneg', -⟩ := get_partition hs hnext
  have hindex : ((i : Int) + 1) % config.serverNum
      = ((i + 1) % config.serverId.length : ℕ) := by
    rw [hs.serverNum]
    push_cast
    rfl
  rw [rangeOf, hget, Checked.ok_bind, hindex, hget', Checked.ok_bind]
  constructor
  · intro h
    obtain ⟨difference, hdifference, h⟩ := Checked.bind_eq_ok.1 h
    obtain ⟨sum, hsum, h⟩ := Checked.bind_eq_ok.1 h
    obtain ⟨hfits, rfl⟩ := Checked.int32_eq_ok_iff.1 hdifference
    obtain ⟨hfits', rfl⟩ := Checked.int32_eq_ok_iff.1 hsum
    rw [Checked.tmod_of_nonneg (by omega) (by omega), Checked.ok_bind, Except.ok.injEq] at h
    exact ⟨⟨hfits, hfits'⟩, h.symm⟩
  · rintro ⟨⟨hfits, hfits'⟩, rfl⟩
    rw [Checked.int32_of_isInt32 hfits, Checked.ok_bind, Checked.int32_of_isInt32 hfits',
      Checked.ok_bind, Checked.tmod_of_nonneg (by omega) (by omega), Checked.ok_bind]
    rfl

theorem rangeOf_eq (hs : config.RangesOk) {i : ℕ} (hi : i < config.serverId.length)
    (hfits : config.RangeFits i) : rangeOf config i = .ok (config.startOf i, config.lengthOf i) :=
  (rangeOf_eq_ok_iff hs hi).2 ⟨hfits, rfl⟩

/-- A key range with a boundary in it is not empty. -/
theorem keyRange_pos (hs : config.RangesOk) {i : ℕ} (hi : i < config.serverId.length) :
    0 < config.keyRange := by
  obtain ⟨-, hnonneg, hlt⟩ := get_partition hs hi
  omega

theorem lengthOf_nonneg (hs : config.RangesOk) {i : ℕ} (hi : i < config.serverId.length) :
    0 ≤ config.lengthOf i :=
  Int.emod_nonneg _ (keyRange_pos hs hi).ne'

end Layout

namespace ConfigMessage

/-- As the key range is an `int32`, only the last sum can overflow. -/
theorem rangeFits_iff (hs : config.RangesOk) (hkey : config.keyRange < 2147483648) {i : ℕ}
    (hi : i < config.serverId.length) : config.RangeFits i ↔
      config.startOf ((i + 1) % config.serverId.length) - config.startOf i + config.keyRange
        < 2147483648 := by
  obtain ⟨-, hnonneg, hlt⟩ := Layout.get_partition hs hi
  obtain ⟨-, hnonneg', hlt'⟩ := Layout.get_partition hs
    (Nat.mod_lt (i + 1) (show 0 < config.serverId.length by omega))
  simp only [RangeFits, Checked.IsInt32]
  omega

/-- Half of the numbers is room enough. -/
theorem rangeFits_of_le (hs : config.RangesOk) (hkey : config.keyRange ≤ 1073741824) {i : ℕ}
    (hi : i < config.serverId.length) : config.RangeFits i := by
  obtain ⟨-, hnonneg, -⟩ := Layout.get_partition hs hi
  obtain ⟨-, -, hlt'⟩ := Layout.get_partition hs
    (Nat.mod_lt (i + 1) (show 0 < config.serverId.length by omega))
  rw [rangeFits_iff hs (by omega) hi]
  omega

end ConfigMessage

namespace Server

theorem initBackups_ok (hs : config.ServersOk)
    (hfits : ∀ j < config.serverId.length, config.RangeFits j) {i : ℕ}
    (hi : i < config.serverId.length) (backup : List (List F)) :
    ∃ r, initBackups config i backup = .ok r := by
  have hnum := hs.serverNum
  have hbody : ∀ j < config.backupSize.toNat, ∀ y : List (List F), True →
      ∃ z, initBackup config i y j = .ok z ∧ True := by
    intro j hj y _
    have hlt := hs.backup_lt
    obtain ⟨target, htarget⟩ : ∃ t : ℕ,
        ((i : Int) - (j + 1) + config.serverNum) % config.serverNum = t :=
      ⟨_, (Int.toNat_of_nonneg (Int.emod_nonneg _ (by omega))).symm⟩
    have hbound := Int.emod_lt_of_pos ((i : Int) - (j + 1) + config.serverNum)
      (show 0 < config.serverNum by omega)
    have hti : target < config.serverId.length := by omega
    have hlen : ¬ config.lengthOf target < 0 := not_lt.2 (Layout.lengthOf_nonneg hs.toRangesOk hti)
    refine ⟨y ++ [List.replicate (config.lengthOf target).toNat FloatOps.zero], ?_, trivial⟩
    simp only [initBackup, htarget, Layout.rangeOf_eq hs.toRangesOk hti (hfits target hti),
      Checked.ok_bind, zeros,
      if_neg hlen]
  obtain ⟨r, hr, -⟩ := Checked.foldlM_range_ok (P := fun _ _ ↦ True) trivial hbody
  exact ⟨r, hr⟩

omit [FloatOps F] in
theorem initIndex_ok {n : ℕ} (hn : n ≤ config.workerId.length) (m : Int → Option Int) :
    ∃ r, (List.range n).foldlM (initIndex config) m = .ok r := by
  have hbody :
      ∀ i < n, ∀ y : Int → Option Int, True → ∃ z, initIndex config y i = .ok z ∧ True := by
    intro i hi y _
    have hi' : i < config.workerId.length := lt_of_lt_of_le hi hn
    refine ⟨Function.update y config.workerId[i] (some i), ?_, trivial⟩
    rw [initIndex, Checked.get_natCast (List.getElem?_eq_getElem hi'), Checked.ok_bind]
  obtain ⟨r, hr, -⟩ := Checked.foldlM_range_ok (P := fun _ _ ↦ True) trivial hbody
  exact ⟨r, hr⟩

/-- The loop has listed the first `m` servers, and found the local one if it is among them. -/
structure Visited (config : ConfigMessage) (i m : ℕ) (l : Layout F) : Prop where
  serverIds : l.serverIds = config.serverId.take m
  foundLocal : l.foundLocal = decide (i < m)
  local_eq : i < m → config.RangeFits i ∧ l.localIndex = i ∧ l.startKey = config.startOf i ∧
    l.parameterLength = config.lengthOf i

section

variable {i : ℕ} {onLocal : ℕ → List (List F) → Except Fault (List (List F))} {l : Layout F}

omit [FloatOps F] in
/-- One pass of the loop over the servers, if it ends. -/
theorem visitServer_visited (hs : config.RangesOk) (hi : i < config.serverId.length) {m : ℕ}
    (hm : m < config.serverId.length) {y z : Layout F} (hy : Visited config i m y)
    (hz : Layout.visitServer config config.serverId[i] onLocal y m = .ok z) :
    Visited config i (m + 1) z := by
  have hids : y.serverIds ++ [config.serverId[m]] = config.serverId.take (m + 1) := by
    rw [hy.serverIds, List.take_succ_eq_append_getElem hm]
  rw [Layout.visitServer, Checked.get_natCast (List.getElem?_eq_getElem hm), Checked.ok_bind] at hz
  split at hz
  · rename_i hlocal
    obtain rfl : m = i := (hs.nodup.getElem_inj_iff).1 hlocal
    obtain ⟨range, hrange, hz⟩ := Checked.bind_eq_ok.1 hz
    obtain ⟨backup, -, hz⟩ := Checked.bind_eq_ok.1 hz
    obtain ⟨hfits, rfl⟩ := (Layout.rangeOf_eq_ok_iff hs hm).1 hrange
    cases hz
    exact ⟨hids, by simp, fun _ ↦ ⟨hfits, rfl, rfl, rfl⟩⟩
  · rename_i hlocal
    have hne : m ≠ i := by
      rintro rfl
      exact hlocal rfl
    cases hz
    refine ⟨hids, ?_, fun h ↦ hy.local_eq (by omega)⟩
    show y.foundLocal = _
    rw [hy.foundLocal, decide_eq_decide]
    omega

omit [FloatOps F] in
/-- **The loop over the servers**, if it ends, has listed them all and found the range of the local
one. -/
theorem visitServers_visited (hs : config.RangesOk) (hi : i < config.serverId.length)
    (hids : l.serverIds = []) (hfound : l.foundLocal = false) {r : Layout F}
    (h : Layout.visitServers config config.serverId[i] onLocal l = .ok r) :
    Visited config i config.serverId.length r := by
  have hnum : config.serverNum.toNat = config.serverId.length := by
    rw [hs.serverNum, Int.toNat_natCast]
  rw [Layout.visitServers, hnum] at h
  refine Checked.foldlM_range_inv (P := fun m (r : Layout F) ↦ Visited config i m r) ?_ ?_ h
  · exact ⟨by simp [hids], by simp [hfound], by omega⟩
  · exact fun m hm y z hy hz ↦ visitServer_visited hs hi hm hy hz

omit [FloatOps F] in
/-- It ends if the range of the local server fits. -/
theorem visitServers_ok (hs : config.RangesOk) (hi : i < config.serverId.length)
    (hfits : config.RangeFits i) (honLocal : ∀ backup, ∃ r, onLocal i backup = .ok r)
    (hids : l.serverIds = []) (hfound : l.foundLocal = false) :
    ∃ r, Layout.visitServers config config.serverId[i] onLocal l = .ok r ∧
      Visited config i config.serverId.length r := by
  have hnum : config.serverNum.toNat = config.serverId.length := by
    rw [hs.serverNum, Int.toNat_natCast]
  have hbody : ∀ m < config.serverNum.toNat, ∀ y : Layout F, True →
      ∃ z, Layout.visitServer config config.serverId[i] onLocal y m = .ok z ∧ True := by
    intro m hm y _
    have hget : Checked.get config.serverId m = .ok config.serverId[m] :=
      Checked.get_natCast (List.getElem?_eq_getElem (hnum ▸ hm))
    rw [Layout.visitServer, hget, Checked.ok_bind]
    split
    · rename_i hlocal
      obtain rfl : m = i := (hs.nodup.getElem_inj_iff).1 hlocal
      obtain ⟨backup, hbackup⟩ := honLocal y.backupParameters
      rw [Layout.rangeOf_eq hs hi hfits, Checked.ok_bind]
      simp only [hbackup, Checked.ok_bind]
      exact ⟨_, rfl, trivial⟩
    · exact ⟨_, rfl, trivial⟩
  obtain ⟨r, hr, -⟩ := Checked.foldlM_range_ok (P := fun _ _ ↦ True) (x := l) trivial hbody
  exact ⟨r, hr, visitServers_visited hs hi hids hfound hr⟩

end

/-- **`Initialize` succeeds on every server of a proper configuration** whose ranges fit. -/
theorem initializeServer_ok (hs : config.ServersOk)
    (hw : config.workerNum.toNat ≤ config.workerId.length)
    (hfits : ∀ j < config.serverId.length, config.RangeFits j) (masterIpPort : String) {i : ℕ}
    (hi : i < config.serverId.length) :
    ∃ s : Server F, initializeServer masterIpPort config.serverId[i] config = .ok s := by
  have hnonneg := hs.backup_nonneg
  have hlt := hs.backup_lt
  obtain ⟨l, hl, hv⟩ := visitServers_ok (F := F) hs.toRangesOk hi (hfits i hi)
    (initBackups_ok hs hfits hi) (l := ⟨[], fun _ ↦ none, 0, 0, 0, [], false⟩) rfl rfl
  obtain ⟨m, hm⟩ := initIndex_ok hw fun _ ↦ none
  have hfound : ¬ l.foundLocal = false := by
    rw [hv.foundLocal, decide_eq_true hi]
    simp
  have hbackup : ¬ (config.backupSize < 0 ∨ config.serverNum ≤ config.backupSize) := by omega
  rw [initializeServer]
  simp only [blank, if_neg hbackup, hl, Checked.ok_bind, if_neg hfound, hm]
  exact ⟨_, rfl⟩

/-- **The range of an initialised server** is the one between its boundary and the next; it fits. -/
theorem initializeServer_range (hs : config.RangesOk) {masterIpPort : String} {i : ℕ}
    (hi : i < config.serverId.length) {s : Server F}
    (h : initializeServer masterIpPort config.serverId[i] config = .ok s) :
    config.RangeFits i ∧ s.localIndex = i ∧ s.serverIds = config.serverId ∧
      s.startKey = config.startOf i ∧ s.parameterLength = config.lengthOf i := by
  rw [initializeServer] at h
  split at h
  · simp at h
  · obtain ⟨l, hl, h⟩ := Checked.bind_eq_ok.1 h
    have hv := visitServers_visited hs hi rfl rfl hl
    obtain ⟨hfits, hindex, hstart, hlength⟩ := hv.local_eq hi
    split at h
    · simp at h
    · obtain ⟨m, -, h⟩ := Checked.bind_eq_ok.1 h
      cases h
      exact ⟨hfits, hindex, hv.serverIds.trans (List.take_length ..), hstart, hlength⟩

end Server

end Rpscc
