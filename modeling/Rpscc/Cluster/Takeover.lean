import Rpscc.Cluster.Failover

/-!
# Taking over the ranges of dead predecessors

Backups are of the servers *before* a server, and `Server::ExtendParameter` puts them in front of
its parameters.  So a configuration that gives a server the ranges of the servers before it is one
that it can follow: `takeover_restores` says that every key then has the value its old owner had, in
the server's own parameters or in the backup of that owner.  (The master hands out other
configurations, see `failover_keeps_iff`.)

The loop stops as soon as the length is right, which may be before it has come to the last of the
servers that are taken over: the ranges of those that are left out are empty.
-/

set_option autoImplicit false

namespace Rpscc

variable {F : Type}

namespace ConfigMessage

/-- The key is in the range of server `i`. -/
def Owns (config : ConfigMessage) (i : ℕ) (key : Int) : Prop :=
  Circle.offset config.keyRange (config.startOf i) key < config.lengthOf i

instance (config : ConfigMessage) (i : ℕ) (key : Int) : Decidable (config.Owns i key) :=
  inferInstanceAs (Decidable (_ < _))

/-- Server `i` has its own range and a backup for each of the servers before it, and no blocked
pull. -/
structure Keeps (config : ConfigMessage) (i : ℕ) (s : Server F) : Prop where
  localId : s.localId = config.idAt i
  parameters : (s.parameters.length : Int) = config.lengthOf i
  backupSize : s.backupSize = config.backupSize
  backupNum : (s.backupParameters.length : Int) = config.backupSize
  backups : ∀ t values, s.backupParameters[t]? = some values →
    (values.length : Int) = config.lengthOf (config.before i (t + 1))
  pullRequest : s.pullRequest = []
  agentNum : s.agentNum = config.workerNum
  agentIds : ∀ a ∈ s.agentIds, a ∈ config.workerId
  idToIndex : ∀ a ∈ config.workerId, ∃ k, s.idToIndex a = some k

/-- Server `i` is number `i'` of the configuration `config'`, which gives it the ranges of the `k`
servers before it. -/
structure TakesOver (config : ConfigMessage) (i k : ℕ) (config' : ConfigMessage) (i' : ℕ) :
    Prop where
  ranges : config'.RangesOk
  two : 2 ≤ config'.serverNum
  lt : i' < config'.serverId.length
  localId : config'.idAt i' = config.idAt i
  keyRange : config'.keyRange = config.keyRange
  workerNum : config'.workerNum = config.workerNum
  workerId : config'.workerId = config.workerId
  startKey : config'.startOf i' = config.startOf (config.before i k)
  endKey : config'.startOf ((i' + 1) % config'.serverId.length)
    = config.startOf ((i + 1) % config.serverId.length)
  fits : config.lengthOf i + ∑ t ∈ Finset.range k, config.lengthOf (config.before i (t + 1))
    < config.keyRange

end ConfigMessage

section

variable {config config' : ConfigMessage} {s : Server F} {i i' k : ℕ}

theorem get_offset_iff {K a key : Int} {xs : List F} {x : F} (hK : 0 < K) :
    Checked.get xs (Circle.offset K a key) = .ok x ↔ Circle.Holds K a xs key x := by
  rw [Checked.get_eq_ok_iff]
  exact and_iff_right (Circle.offset_nonneg hK)

namespace ConfigMessage.Keeps

variable (hs : config.ServersOk) (h : config.Keeps i s)

include h

/-- The lengths of the backups that are put in front. -/
theorem length_stack (hk : k ≤ s.backupParameters.length) :
    ((Circle.stack (s.backupParameters.take k) s.parameters).length : Int)
      = config.lengthOf i + ∑ t ∈ Finset.range k, config.lengthOf (config.before i (t + 1)) := by
  induction k with
  | zero => simpa [Circle.stack] using h.parameters
  | succ k ih =>
    have hlen := h.backups k _ (List.getElem?_eq_getElem hk)
    rw [List.take_succ_eq_append_getElem hk, Circle.stack_concat, List.length_append,
      Finset.sum_range_succ]
    push_cast
    rw [ih (by omega), hlen]
    omega

include hs

theorem backupNum_lt : s.backupParameters.length < config.serverId.length := by
  have hnum := hs.serverNum
  have hlt := hs.backup_lt
  have hbackup := h.backupNum
  omega

/-- The backups are on the arcs behind the range of the server. -/
theorem onArcs : Circle.OnArcs config.keyRange (fun t ↦ config.startOf (config.before i t))
    s.backupParameters := by
  intro t values hget
  obtain ⟨ht, -⟩ := List.getElem?_eq_some_iff.1 hget
  have hlt := h.backupNum_lt hs
  rw [h.backups t values hget, lengthOf_before (by omega)]

/-- What `Reconfigure` makes of the parameters: the backups of the servers that are taken over stand
in front of them, and that is as much as the new range is long. -/
theorem reconfigure_takesOver (hw : config.workerNum = config.workerId.length)
    (hi : i < config.serverId.length) (hk : k ≤ s.backupParameters.length)
    (ht : config.TakesOver i k config' i') (hfits : config'.RangeFits i') :
    ∃ s', s.reconfigure config' = .ok (s', []) ∧
      s'.startKey = config.startOf (config.before i k) ∧ s'.keyRange = config.keyRange ∧
      s'.parameters = Circle.stack (s.backupParameters.take k) s.parameters ∧
      (s'.parameters.length : Int) = s'.parameterLength := by
  have hpos := Layout.keyRange_pos hs.toRangesOk hi
  have hi' := ht.lt
  have hlocal : s.localId = config'.serverId[i'] := by
    rw [h.localId, ← ht.localId, ConfigMessage.idAt, List.getElem?_eq_getElem hi',
      Option.getD_some]
  have hnum : s.agentNum.toNat ≤ config'.workerId.length := by
    rw [h.agentNum, ht.workerId, hw, Int.toNat_natCast]
  have hsize : s.backupSize.toNat = s.backupParameters.length := by
    rw [h.backupSize, ← h.backupNum, Int.toNat_natCast]
  obtain ⟨s', hs', hstart, hlength, hrange, hparams⟩ := Server.reconfigure_ok ht.ranges hi' hfits
    hlocal h.pullRequest (ht.workerId ▸ h.agentIds) (ht.workerId ▸ h.idToIndex) hnum hsize.le
  -- the boundaries of the new range are those of the arcs
  have hown : (s.parameters.length : Int) = Circle.offset config.keyRange
      (config.startOf (config.before i 0)) (config.startOf ((i + 1) % config.serverId.length)) := by
    rw [before_zero hi]
    exact h.parameters
  have hlt : ((Circle.stack (s.backupParameters.take k) s.parameters).length : Int)
      < config.keyRange := by
    rw [h.length_stack hk]
    exact ht.fits
  have harc := Circle.length_stack hpos hown (h.onArcs hs) hk hlt
  have hnew : config'.lengthOf i' = Circle.offset config.keyRange
      (config.startOf (config.before i k))
      (config.startOf ((i + 1) % config.serverId.length)) := by
    rw [ConfigMessage.lengthOf, ht.startKey, ht.endKey, ht.keyRange]
    rfl
  have hstack : s'.parameters = Circle.stack (s.backupParameters.take k) s.parameters := by
    rw [hparams, hsize, List.take_length]
    exact Circle.splice_eq_stack _ _ _ (harc.trans hnew.symm)
  refine ⟨s', hs', hstart.trans ht.startKey, hrange.trans ht.keyRange, hstack, ?_⟩
  rw [hstack, hlength, harc, hnew]

end ConfigMessage.Keeps

/-- **Taking over dead predecessors restores their parameters in place.**  After `Reconfigure`,
which can compute the length of the new range if its sums are `int32`, there is a parameter for
every key of that range.  A key that the server has owned before has its old value, and any other
key is in the range of one of the servers that are taken over, and has the value that the backup of
that server has for it. -/
theorem takeover_restores (hs : config.ServersOk)
    (hw : config.workerNum = config.workerId.length) (hi : i < config.serverId.length)
    (hkeep : config.Keeps i s) (hk : (k : Int) ≤ config.backupSize)
    (h : config.TakesOver i k config' i') (hfits : config'.RangeFits i') :
    ∃ s', s.reconfigure config' = .ok (s', []) ∧
      (s'.parameters.length : Int) = s'.parameterLength ∧
      ∀ key, 0 ≤ key → key < s'.keyRange → s'.Covers s'.keyRange key →
        ∃ x, Checked.get s'.parameters ((key - s'.startKey + s'.keyRange) % s'.keyRange) = .ok x ∧
          (config.Owns i key → Checked.get s.parameters
            (Circle.offset config.keyRange (config.startOf i) key) = .ok x) ∧
          (∀ t < k, config.Owns (config.before i (t + 1)) key →
            ∃ values, s.backupParameters[t]? = some values ∧ Checked.get values (Circle.offset
              config.keyRange (config.startOf (config.before i (t + 1))) key) = .ok x) ∧
          (config.Owns i key ∨ ∃ t < k, config.Owns (config.before i (t + 1)) key) := by
  have hpos := Layout.keyRange_pos hs.toRangesOk hi
  have hk' : k ≤ s.backupParameters.length := by
    have hnum := hkeep.backupNum
    omega
  obtain ⟨s', hs', hstart, hrange, hstack, hlength⟩ :=
    hkeep.reconfigure_takesOver hs hw hi hk' h hfits
  refine ⟨s', hs', hlength, fun key _ _ hcovers ↦ ?_⟩
  have hlt : ((Circle.stack (s.backupParameters.take k) s.parameters).length : Int)
      < config.keyRange := by
    rw [hkeep.length_stack hk']
    exact h.fits
  have hin : Circle.offset config.keyRange (config.startOf (config.before i k)) key
      < (Circle.stack (s.backupParameters.take k) s.parameters).length := by
    rw [Server.Covers, ← hlength, hstack, hstart, hrange] at hcovers
    exact hcovers
  have hget : Checked.get s'.parameters ((key - s'.startKey + s'.keyRange) % s'.keyRange)
      = Checked.get (Circle.stack (s.backupParameters.take k) s.parameters)
        (Circle.offset config.keyRange (config.startOf (config.before i k)) key) := by
    rw [hstack, hstart, hrange]
    rfl
  have hiff := fun x ↦ Circle.holds_stack_iff (k := key) (x := x) hpos (hkeep.onArcs hs) hk' hlt
  simp only [before_zero hi] at hiff
  obtain ⟨x, hx⟩ := Circle.exists_holds hpos hin
  refine ⟨x, hget.trans ((get_offset_iff hpos).2 hx), fun hown ↦ ?_, fun t ht hown ↦ ?_, ?_⟩
  · rw [ConfigMessage.Owns, ← hkeep.parameters] at hown
    obtain ⟨y, hy⟩ := Circle.exists_holds hpos hown
    cases hx.symm.trans ((hiff y).2 (.inl hy))
    exact (get_offset_iff hpos).2 hy
  · have hvalues := List.getElem?_eq_getElem (lt_of_lt_of_le ht hk')
    rw [ConfigMessage.Owns, ← hkeep.backups t _ hvalues] at hown
    obtain ⟨y, hy⟩ := Circle.exists_holds hpos hown
    cases hx.symm.trans ((hiff y).2 (.inr ⟨t, ht, _, hvalues, hy⟩))
    exact ⟨_, hvalues, (get_offset_iff hpos).2 hy⟩
  · obtain hown | ⟨t, ht, values, hvalues, hown⟩ := (hiff x).1 hx
    · refine .inl ?_
      rw [ConfigMessage.Owns, ← hkeep.parameters]
      exact hown.lt hpos
    · refine .inr ⟨t, ht, ?_⟩
      rw [ConfigMessage.Owns, ← hkeep.backups t _ hvalues]
      exact hown.lt hpos

end

/-- What is left of the three servers without server `1`, when server `2` gets its range. -/
def twoServersFirstGone : ConfigMessage :=
  { threeServers with serverNum := 2, partition := [0, 6], serverId := [2, 3] }

/-- When every key has itself as its value and server `2` takes over the keys of server `1`, it has
a key of server `1` and a key of its own in their places. -/
theorem takeover_restores_first : ∃ s',
    (threeServersWith (fun key ↦ key) 2).reconfigure twoServersFirstGone = .ok (s', []) ∧
    (s'.parameters.length : Int) = s'.parameterLength ∧
    Checked.get s'.parameters ((1 - s'.startKey + s'.keyRange) % s'.keyRange) = .ok 1 ∧
    Checked.get s'.parameters ((4 - s'.startKey + s'.keyRange) % s'.keyRange) = .ok 4 := by
  have hkeep : threeServers.Keeps 1 (threeServersWith (fun key ↦ key) 2) := by
    refine ⟨rfl, rfl, rfl, rfl, fun t values hget ↦ ?_, rfl, rfl, fun _ h ↦ h,
      by simp [threeServers, threeServersWith]⟩
    obtain ⟨ht, -⟩ := List.getElem?_eq_some_iff.1 hget
    obtain rfl : t = 0 := Nat.lt_one_iff.1 ht
    cases hget
    rfl
  have htakes : threeServers.TakesOver 1 1 twoServersFirstGone 0 :=
    ⟨by constructor <;> decide, by decide, by decide, rfl, rfl, rfl, rfl, rfl, rfl, by decide⟩
  obtain ⟨s', hs', hlength, hall⟩ := takeover_restores (k := 1)
    ⟨by constructor <;> decide, by decide, by decide⟩ rfl (by decide) hkeep (by decide) htakes
    (by decide)
  obtain ⟨hstart, hlen, hrange⟩ : s'.startKey = 0 ∧ s'.parameterLength = 6 ∧ s'.keyRange = 9 := by
    cases hs'
    exact ⟨rfl, rfl, rfl⟩
  have hcovers : ∀ key : Int, (key - 0 + 9) % 9 < 6 → s'.Covers s'.keyRange key := by
    rw [hrange]
    simp only [Server.Covers, hstart, hlen]
    exact fun _ h ↦ h
  obtain ⟨x, hx, -, hback, -⟩ := hall 1 (by decide) (by rw [hrange]; decide) (hcovers 1 (by decide))
  obtain ⟨y, hy, hown, -⟩ := hall 4 (by decide) (by rw [hrange]; decide) (hcovers 4 (by decide))
  obtain ⟨values, hvalues, hget⟩ := hback 0 (by decide) (by decide)
  cases hvalues
  cases hget
  cases hown (by decide)
  exact ⟨s', hs', hlength, hx, hy⟩

end Rpscc
