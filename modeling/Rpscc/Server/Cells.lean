import Rpscc.Lib.Circle
import Rpscc.Server.Merge
import Rpscc.Server.Requests

/-!
# Where a key is kept

The parameters of a server are a vector, and the key it begins with is `start_key_`.  A range goes
around the end of the key space, and for the partitions the master draws that of the last server
always does; so the value of a key is at its offset from `start_key_` around the circle.

Three functions look a key up.  `ServePull` adds `key_range_` when the difference is negative, and
that is the offset.  `UpdateParameter` and `RespondToAll` use the difference as it is, and read
outside of the vector for every key behind the end of the key space (`wrapped_key_faults`).
`same_cell_iff` says that those are the only keys for which the three differ.
-/

set_option autoImplicit false

namespace Rpscc

namespace Server

variable {F : Type}

/-- The range of the server is a proper part of the circle, and there is a parameter for each of its
keys. -/
structure ProperRange (s : Server F) : Prop where
  start_nonneg : 0 ≤ s.startKey
  start_lt : s.startKey < s.keyRange
  length_pos : 0 < s.parameterLength
  length_lt : s.parameterLength < s.keyRange
  parameters : (s.parameters.length : Int) = s.parameterLength

/-- The key belongs to the range of the server, which may go around the end of the key space. -/
structure OwnsAround (s : Server F) (key : Int) : Prop where
  nonneg : 0 ≤ key
  lt : key < s.keyRange
  offset_lt : Circle.offset s.keyRange s.startKey key < s.parameterLength

/-- All three functions find the value of the key at its offset: merging a push adds to that element
of the sum, and both ways of answering a pull read that parameter. -/
structure SameCell [FloatOps F] (s : Server F) (key : Int) : Prop where
  updated : ∀ (update : List F) (value : F), update.length = s.parameters.length →
    ∃ x, Checked.get update (Circle.offset s.keyRange s.startKey key) = .ok x ∧
      addPairs s.startKey [(key, value)] update = .ok
        (update.set (Circle.offset s.keyRange s.startKey key).toNat (FloatOps.add x value))
  answered : ∃ x, Checked.get s.parameters (Circle.offset s.keyRange s.startKey key) = .ok x ∧
    s.pullValues [key] = .ok [x]
  answeredLate : ∃ x, Checked.get s.parameters (Circle.offset s.keyRange s.startKey key) = .ok x ∧
    s.blockedValues [key] = .ok [x]

/-- A blocked pull is answered with the message that `ServePull` sends for it in the same state. -/
structure SameAnswer (s : Server F) (id : Int) (keys : List Int) : Prop where
  late : ∃ values, s.pullValues keys = .ok values ∧
    { s with pullRequest := [⟨id, keys⟩] }.respondToAll
      = .ok ({ s with pullRequest := [] }, [s.reply id keys values])
  served : ∀ s' sent, s.servePull id ⟨.key, keys, []⟩ = .ok (s', ⟨.answered, sent⟩) →
    { s with pullRequest := [⟨id, keys⟩] }.respondToAll = .ok ({ s with pullRequest := [] }, sent)

variable {s : Server F} {key : Int} {keys : List Int}

/-! ## The three lookups -/

theorem ProperRange.get_offset (h : s.ProperRange) (hk : s.OwnsAround key) {xs : List F}
    (hxs : xs.length = s.parameters.length) :
    ∃ x, Checked.get xs (Circle.offset s.keyRange s.startKey key) = .ok x := by
  have hlt := hk.offset_lt
  rw [← h.parameters, ← hxs] at hlt
  exact Checked.exists_get (Circle.offset_nonneg (lt_trans h.length_pos h.length_lt)) hlt

/-- The difference is the offset if and only if the key is not behind the end of the key space. -/
theorem ProperRange.sub_eq_offset_iff (h : s.ProperRange) (hk : s.OwnsAround key) :
    key - s.startKey = Circle.offset s.keyRange s.startKey key ↔ s.startKey ≤ key := by
  constructor
  · intro heq
    have hnonneg : 0 ≤ Circle.offset s.keyRange s.startKey key :=
      Circle.offset_nonneg (lt_trans h.length_pos h.length_lt)
    omega
  · exact fun hle ↦ (Circle.offset_of_le h.start_nonneg hk.lt hle).symm

/-- `ServePull` always looks at the offset. -/
theorem ProperRange.pullIndex_eq (h : s.ProperRange) (hk : s.OwnsAround key) :
    (if key - s.startKey < 0 then key - s.startKey + s.keyRange else key - s.startKey)
      = Circle.offset s.keyRange s.startKey key := by
  split
  · exact (Circle.offset_of_lt h.start_lt hk.nonneg (by omega)).symm
  · exact (Circle.offset_of_le h.start_nonneg hk.lt (by omega)).symm

/-- The values at the offsets of the keys. -/
def valuesAround (s : Server F) (keys : List Int) : Except Fault (List F) :=
  keys.mapM fun k ↦ Checked.get s.parameters (Circle.offset s.keyRange s.startKey k)

theorem ProperRange.pullValues_eq (h : s.ProperRange) (hk : ∀ k ∈ keys, s.OwnsAround k) :
    s.pullValues keys = s.valuesAround keys :=
  Checked.mapM_congr fun k hmem ↦ congrArg (Checked.get s.parameters) (h.pullIndex_eq (hk k hmem))

theorem ProperRange.blockedValues_eq (h : s.ProperRange) (hk : ∀ k ∈ keys, s.OwnsAround k)
    (hle : ∀ k ∈ keys, s.startKey ≤ k) : s.blockedValues keys = s.valuesAround keys :=
  Checked.mapM_congr fun k hmem ↦
    congrArg (Checked.get s.parameters) ((h.sub_eq_offset_iff (hk k hmem)).2 (hle k hmem))

theorem ProperRange.valuesAround_ok (h : s.ProperRange) (hk : ∀ k ∈ keys, s.OwnsAround k) :
    ∃ values, s.valuesAround keys = .ok values :=
  Checked.exists_mapM_ok_iff.2 fun k hmem ↦ h.get_offset (hk k hmem) rfl

/-- `RespondToAll` gets through only if no key is behind the end of the key space. -/
theorem le_of_blockedValues {values : List F} (h : s.blockedValues keys = .ok values) :
    ∀ k ∈ keys, s.startKey ≤ k := by
  intro k hk
  obtain ⟨x, hx⟩ := Checked.exists_mapM_ok_iff.1 ⟨values, h⟩ k hk
  have hnonneg := (Checked.get_eq_ok_iff.1 hx).1
  omega

theorem respondToAll_single (s : Server F) (id : Int) (keys : List Int) :
    { s with pullRequest := [⟨id, keys⟩] }.respondToAll = (do
      let values ← s.blockedValues keys
      .ok ({ s with pullRequest := [] }, [s.reply id keys values])) := by
  rw [respondToAll]
  simp only [List.mapM_cons, List.mapM_nil]
  show (do
    let sent ← (do
      let r ← (do
        let values ← s.blockedValues keys
        Except.ok (s.reply id keys values))
      let rs ← (pure [] : Except Fault (List (Sent F)))
      pure (r :: rs))
    Except.ok ({ s with pullRequest := [] }, sent)) = _
  cases s.blockedValues keys <;> rfl

/-- What a pull that is answered at once is answered with. -/
theorem of_servePull_answered {id : Int} {s' : Server F} {sent : List (Sent F)}
    (h : s.servePull id ⟨.key, keys, []⟩ = .ok (s', ⟨.answered, sent⟩)) :
    ∃ values, s.pullValues keys = .ok values ∧ sent = [s.reply id keys values] := by
  obtain ⟨-, -, hr⟩ | ⟨i, buffer, -, -, ⟨-, -, hr⟩ | ⟨-, values, hvalues, -, hr⟩⟩ :=
    servePull_branches h
  · cases hr
  · cases hr
  · cases hr
    exact ⟨values, hvalues, rfl⟩

/-! ## The keys for which they agree -/

theorem sameCell_of_le [FloatOps F] (h : s.ProperRange) (hk : s.OwnsAround key)
    (hle : s.startKey ≤ key) : s.SameCell key := by
  have hsub := (h.sub_eq_offset_iff hk).2 hle
  have hall : ∀ k ∈ [key], s.OwnsAround k := by simpa using hk
  have hvalues : ∀ {x : F},
      Checked.get s.parameters (Circle.offset s.keyRange s.startKey key) = .ok x →
        s.valuesAround [key] = .ok [x] := by
    intro x hx
    rw [valuesAround, List.mapM_cons, hx, Checked.ok_bind, List.mapM_nil]
    rfl
  obtain ⟨x, hx⟩ := h.get_offset hk rfl
  refine ⟨fun update value hlen ↦ ?_, ⟨x, hx, ?_⟩, ⟨x, hx, ?_⟩⟩
  · obtain ⟨y, hy⟩ := h.get_offset hk hlen
    exact ⟨y, hy, by rw [addPairs, hsub, hy, Checked.ok_bind]; rfl⟩
  · rw [h.pullValues_eq hall]
    exact hvalues hx
  · rw [h.blockedValues_eq hall (by simpa using hle)]
    exact hvalues hx

theorem sameAnswer_of_le (h : s.ProperRange) (hk : ∀ k ∈ keys, s.OwnsAround k)
    (hle : ∀ k ∈ keys, s.startKey ≤ k) (id : Int) : s.SameAnswer id keys := by
  have hsame : s.pullValues keys = s.blockedValues keys :=
    (h.pullValues_eq hk).trans (h.blockedValues_eq hk hle).symm
  refine ⟨?_, fun s' sent hserve ↦ ?_⟩
  · obtain ⟨values, hvalues⟩ := h.valuesAround_ok hk
    rw [← h.pullValues_eq hk] at hvalues
    refine ⟨values, hvalues, ?_⟩
    rw [respondToAll_single, ← hsame, hvalues, Checked.ok_bind]
  · obtain ⟨values, hvalues, rfl⟩ := of_servePull_answered hserve
    rw [respondToAll_single, ← hsame, hvalues, Checked.ok_bind]

/-- **All paths address the same cell, up to the end of the key space.**  For keys that the server
owns, merging, answering at once and answering late all go to the offset of a key if and only if the
key is not below `start_key_`; and a late answer is the one that `ServePull` gives if and only if
none of the keys is. -/
theorem same_cell_iff [FloatOps F] (h : s.ProperRange) (hk : ∀ k ∈ keys, s.OwnsAround k)
    (id : Int) :
    (∀ k ∈ keys, (s.SameCell k ↔ s.startKey ≤ k)) ∧
      (s.SameAnswer id keys ↔ ∀ k ∈ keys, s.startKey ≤ k) := by
  refine ⟨fun k hmem ↦ ⟨fun hcell ↦ ?_, sameCell_of_le h (hk k hmem)⟩, fun hanswer ↦ ?_,
    fun hle ↦ sameAnswer_of_le h hk hle id⟩
  · obtain ⟨x, -, hlate⟩ := hcell.answeredLate
    exact le_of_blockedValues hlate k (List.mem_singleton_self k)
  · obtain ⟨values, -, hlate⟩ := hanswer.late
    rw [respondToAll_single, Checked.bind_eq_ok] at hlate
    obtain ⟨values', hvalues', -⟩ := hlate
    exact le_of_blockedValues hvalues'

/-- Two servers; the range of the second goes around the end of the key space. -/
def aroundConfig : ConfigMessage where
  workerNum := 1
  serverNum := 2
  keyRange := 10
  nodeIpPort := ["10.0.0.1:80", "10.0.0.2:80", "10.0.0.3:80", "10.0.0.4:80"]
  partition := [2, 7]
  backupSize := 0
  serverId := [1, 2]
  workerId := [3]
  masterId := [0]
  bound := 1

/-- Above `start_key_` the three agree. -/
theorem same_cell_iff_above : ∃ s : Server Int,
    initializeServer "10.0.0.1:80" 2 aroundConfig = .ok s ∧ s.ProperRange ∧
    (∀ k ∈ [7, 9], s.OwnsAround k) ∧ (∀ k ∈ [7, 9], s.SameCell k) ∧ s.SameAnswer 3 [7, 9] := by
  obtain ⟨s, hs, hrange, hkeys, hle⟩ : ∃ s : Server Int,
      initializeServer "10.0.0.1:80" 2 aroundConfig = .ok s ∧ s.ProperRange ∧
      (∀ k ∈ [7, 9], s.OwnsAround k) ∧ ∀ k ∈ [7, 9], s.startKey ≤ k := by
    refine ⟨_, rfl, ⟨by decide, by decide, by decide, by decide, by decide⟩, fun k hk ↦ ?_,
      by decide⟩
    rcases List.mem_pair.1 hk with rfl | rfl <;> exact ⟨by decide, by decide, by decide⟩
  obtain ⟨hcell, hanswer⟩ := same_cell_iff hrange hkeys 3
  exact ⟨s, hs, hrange, hkeys, fun k hk ↦ (hcell k hk).2 (hle k hk), hanswer.2 hle⟩

/-- The second server owns key `0`, at offset `3`.  `ServePull` answers; `UpdateParameter` and
`RespondToAll` read in front of their vectors. -/
theorem wrapped_key_faults : ∃ s : Server Int,
    initializeServer "10.0.0.1:80" 2 aroundConfig = .ok s ∧ s.ProperRange ∧ s.OwnsAround 0 ∧
    Circle.offset s.keyRange s.startKey 0 = 3 ∧ s.pullValues [0] = .ok [0] ∧
    s.blockedValues [0] = .error .outOfRange ∧
    addPairs s.startKey [(0, 5)] ([0, 0, 0, 0, 0] : List Int) = .error .outOfRange ∧
    ¬ s.SameCell 0 ∧ ¬ s.SameAnswer 3 [0] := by
  refine ⟨_, rfl, ⟨by decide, by decide, by decide, by decide, by decide⟩,
    ⟨by decide, by decide, by decide⟩, rfl, rfl, rfl, rfl, fun hcell ↦ ?_, fun hanswer ↦ ?_⟩
  · obtain ⟨x, -, hlate⟩ := hcell.answeredLate
    cases hlate
  · obtain ⟨values, -, hlate⟩ := hanswer.late
    cases hlate

end Server

end Rpscc
