import Rpscc.Agent.Partition
import Rpscc.Lib.Arcs
import Rpscc.Lib.Lists
import Rpscc.Master.TaskConfig

/-!
# Taking servers out

`FixConfig` erases a dead server from `server_id_` and, at the same index, a boundary from
`partition_`.  Nothing in the two vectors says that they belong together, and the owner of a key is
found by a search in the second and a lookup in the first.  Read as one list of `entries`, what
`FixConfig` leaves is a part of what was there (`TaskConfig.Keeps`), whatever the dead nodes are and
however often it is called; and the owners are then those of the `Arcs` that are left.

The main result is `removal_keeps_owners`: taking servers out moves the keys of these servers, each
to the nearest server before its old one, and no others.
-/

set_option autoImplicit false

namespace Rpscc

namespace TaskConfig

/-- The calls of `FixConfig`, one after the other. -/
def fixConfigs (t : TaskConfig) (calls : List (List Int)) : Except Fault TaskConfig :=
  calls.foldlM fixConfig t

/-- Every server with its boundary. -/
def entries (t : TaskConfig) : List (Int × Int) := t.serverId.zip t.partition

/-- What is left of the servers and their boundaries when the nodes of a list are taken out: all
servers that are not in it, and of those that are at most the ones whose id an agent has, too. -/
structure Keeps (dead : List Int) (t t' : TaskConfig) : Prop where
  keyRange : t'.keyRange = t.keyRange
  length : t'.partition.length = t'.serverId.length
  entries : t'.entries.Sublist t.entries
  agentId : t'.agentId ⊆ t.agentId
  spared : ∀ id ∈ t.serverId, id ∉ dead → id ∈ t'.serverId
  taken : ∀ id ∈ dead, id ∉ t.agentId → id ∉ t'.serverId

variable {t t' t'' : TaskConfig} {dead dead' : List Int}

theorem map_fst_entries (h : t.partition.length = t.serverId.length) :
    t.entries.map Prod.fst = t.serverId :=
  List.map_fst_zip (le_of_eq h.symm)

theorem map_snd_entries (h : t.partition.length = t.serverId.length) :
    t.entries.map Prod.snd = t.partition :=
  List.map_snd_zip (le_of_eq h)

theorem Keeps.refl (h : t.partition.length = t.serverId.length) : Keeps [] t t :=
  ⟨rfl, h, List.Sublist.refl _, List.Subset.refl _, fun _ hid _ ↦ hid,
    fun _ hid ↦ absurd hid List.not_mem_nil⟩

/-- The servers that are left are so in their order. -/
theorem Keeps.serverId (h : Keeps dead t t') (hlen : t.partition.length = t.serverId.length) :
    t'.serverId.Sublist t.serverId := by
  rw [← map_fst_entries hlen, ← map_fst_entries h.length]
  exact h.entries.map Prod.fst

theorem Keeps.trans (h : Keeps dead t t') (h' : Keeps dead' t' t'') :
    Keeps (dead ++ dead') t t'' where
  keyRange := h'.keyRange.trans h.keyRange
  length := h'.length
  entries := h'.entries.trans h.entries
  agentId := List.Subset.trans h'.agentId h.agentId
  spared := by
    intro id hid hnot
    rw [List.mem_append, not_or] at hnot
    exact h'.spared id (h.spared id hid hnot.1) hnot.2
  taken := by
    intro id hid hagent hleft
    rcases List.mem_append.1 hid with hid | hid
    · exact h.taken id hid hagent ((h'.serverId h.length).subset hleft)
    · exact h'.taken id hid (fun hmem ↦ hagent (h.agentId hmem)) hleft

/-- Taking a node out does not fault, and leaves a part of what was there. -/
theorem removeNode_keeps (hnodup : t.serverId.Nodup)
    (h : t.partition.length = t.serverId.length) (node : Int) :
    ∃ t', t.removeNode node = .ok t' ∧ Keeps [node] t t' := by
  rw [removeNode]
  split
  · rename_i hagent
    refine ⟨_, rfl, rfl, h, List.Sublist.refl _, List.erase_subset, fun _ hid _ ↦ hid, ?_⟩
    intro id hid hnot
    rw [List.mem_singleton.1 hid] at hnot
    exact absurd hagent hnot
  · split
    · rename_i hmem
      have hlt : t.serverId.idxOf node < t.serverId.length := List.idxOf_lt_length_of_mem hmem
      refine ⟨_, if_pos (by rw [h]; exact hlt), rfl, ?_, ?_, List.Subset.refl _, ?_, ?_⟩
      · show (t.partition.eraseIdx _).length = (t.serverId.erase node).length
        rw [List.length_eraseIdx_of_lt (by rw [h]; exact hlt), List.length_erase_of_mem hmem, h]
      · show ((t.serverId.erase node).zip (t.partition.eraseIdx _)).Sublist t.entries
        rw [List.erase_eq_eraseIdx_of_idxOf rfl, Lists.zip_eraseIdx]
        exact List.eraseIdx_sublist _ _
      · intro id hid hnot
        exact (List.mem_erase_of_ne (List.ne_of_not_mem_cons hnot)).2 hid
      · intro id hid _
        rw [List.mem_singleton.1 hid]
        exact hnodup.not_mem_erase
    · rename_i hserver
      refine ⟨_, rfl, rfl, h, List.Sublist.refl _, List.Subset.refl _, fun _ hid _ ↦ hid, ?_⟩
      intro id hid _
      rw [List.mem_singleton.1 hid]
      exact hserver

theorem foldlM_removeNode_keeps (dead : List Int) :
    ∀ {t : TaskConfig}, t.serverId.Nodup → t.partition.length = t.serverId.length →
      ∃ t', dead.foldlM removeNode t = .ok t' ∧ Keeps dead t t' := by
  induction dead with
  | nil => exact fun _ h ↦ ⟨_, rfl, .refl h⟩
  | cons node dead ih =>
    intro t hnodup h
    obtain ⟨t₁, h₁, hk₁⟩ := removeNode_keeps hnodup h node
    obtain ⟨t₂, h₂, hk₂⟩ := ih (hnodup.sublist (hk₁.serverId h)) hk₁.length
    exact ⟨t₂, by rw [List.foldlM_cons, h₁, Checked.ok_bind, h₂], hk₁.trans hk₂⟩

theorem fixConfig_keeps (hnodup : t.serverId.Nodup)
    (h : t.partition.length = t.serverId.length) (dead : List Int) :
    ∃ t', t.fixConfig dead = .ok t' ∧ Keeps dead t t' := by
  rw [fixConfig]
  split
  · rename_i hnil
    exact ⟨t, rfl, hnil ▸ .refl h⟩
  · obtain ⟨t', ht', hk⟩ :=
      foldlM_removeNode_keeps dead (t := { t with configChanged := true }) hnodup h
    exact ⟨t', ht', hk.keyRange, hk.length, hk.entries, hk.agentId, hk.spared, hk.taken⟩

theorem fixConfigs_keeps (calls : List (List Int)) :
    ∀ {t : TaskConfig}, t.serverId.Nodup → t.partition.length = t.serverId.length →
      ∃ t', t.fixConfigs calls = .ok t' ∧ Keeps calls.flatten t t' := by
  induction calls with
  | nil => exact fun _ h ↦ ⟨_, rfl, .refl h⟩
  | cons dead calls ih =>
    intro t hnodup h
    obtain ⟨t₁, h₁, hk₁⟩ := fixConfig_keeps hnodup h dead
    obtain ⟨t₂, h₂, hk₂⟩ := ih (hnodup.sublist (hk₁.serverId h)) hk₁.length
    exact ⟨t₂, by rw [fixConfigs, List.foldlM_cons, h₁, Checked.ok_bind]; exact h₂, hk₁.trans hk₂⟩

/-- The survivors and their boundaries are told by the survivors. -/
theorem Keeps.entries_eq (h : Keeps dead t t') (hnodup : t.serverId.Nodup)
    (hlen : t.partition.length = t.serverId.length) :
    t'.entries = t.entries.filter fun e ↦ decide (e.1 ∈ t'.serverId) := by
  have heq := Lists.eq_filter_of_sublist (f := Prod.fst) h.entries
    (by rw [map_fst_entries hlen]; exact hnodup)
  rwa [map_fst_entries h.length] at heq

/-! ## Owners -/

/-- The boundaries up to a key. -/
def upTo (key : Int) (e : Int × Int) : Bool := decide (e.2 ≤ key)

theorem initial_upTo (hlen : t.partition.length = t.serverId.length)
    (hsorted : t.partition.Pairwise (· ≤ ·)) (key : Int) :
    Sorted.Initial (upTo key) t.entries := by
  rw [← map_snd_entries hlen, List.pairwise_map] at hsorted
  refine hsorted.imp fun {a b} hab hb ↦ ?_
  rw [upTo, decide_eq_true_eq] at hb ⊢
  exact le_trans hab hb

/-- The owner by search and lookup is the owner by the arcs. -/
theorem getServerByKey_eq_place (hlen : t.partition.length = t.serverId.length)
    (hsorted : t.partition.Pairwise (· ≤ ·)) {p : Partition}
    (hpart : p.partVec = t.partition) {key : Int} (hk : p.InRange key) :
    p.getServerByKey key = Arcs.place (upTo key) t.entries := by
  have hord : p.Ordered := by rw [Partition.Ordered, hpart]; exact hsorted
  have hnum := p.length_eq
  have hpos := p.length_pos
  have hslot : p.slot key = t.entries.countP (upTo key) := by
    rw [Partition.slot, hpart, ← map_snd_entries hlen, List.countP_map]
    rfl
  have hlen' : t.entries.length = p.partVec.length := by
    rw [hpart, ← map_snd_entries hlen, List.length_map]
  have hle := p.slot_le key
  rw [Partition.getServerByKey_eq hord hk, Partition.serverOf, Arcs.place, ← hslot, hlen']
  split
  · rename_i hzero
    rw [hzero, Nat.zero_add, Nat.mod_eq_of_lt (by omega)]
    omega
  · rw [show p.slot key + (p.partVec.length - 1) = p.slot key - 1 + p.partVec.length by omega,
      Nat.add_mod_right, Nat.mod_eq_of_lt (by omega)]
    omega

/-- The owner of a key, as an entry. -/
theorem exists_owner (hlen : t.partition.length = t.serverId.length)
    (hsorted : t.partition.Pairwise (· ≤ ·)) {p : Partition}
    (hpart : p.partVec = t.partition) {key : Int} (hk : p.InRange key) :
    ∃ e, Arcs.owner (upTo key) t.entries = some e ∧
      p.getServerByKey key = Arcs.place (upTo key) t.entries ∧
      t.serverId[Arcs.place (upTo key) t.entries]? = some e.1 := by
  have hpos : 0 < t.entries.length := by
    rw [← List.length_map Prod.snd, map_snd_entries hlen, ← hpart]
    exact p.length_pos
  have hlt : Arcs.place (upTo key) t.entries < t.entries.length := Nat.mod_lt _ hpos
  refine ⟨t.entries[Arcs.place (upTo key) t.entries], ?_,
    getServerByKey_eq_place hlen hsorted hpart hk, ?_⟩
  · rw [Arcs.owner_eq_getElem? _ (List.length_pos_iff.1 hpos), List.getElem?_eq_getElem hlt]
  · rw [← map_fst_entries hlen, List.getElem?_map, List.getElem?_eq_getElem hlt]
    rfl

/-- **Taking servers out disturbs only their own keys.**  Whatever the dead lists, `FixConfig` does
not fault.  A server that is in none of them survives, one that is (and has no id of an agent) does
not, and every survivor has its boundary, in order.  As long as there is a server left, a key stays
with its owner if that survived, and otherwise goes to the nearest survivor before it in the circle
of the old servers. -/
theorem removal_keeps_owners (hnodup : t.serverId.Nodup)
    (hlen : t.partition.length = t.serverId.length) (hsorted : t.partition.Pairwise (· ≤ ·))
    (calls : List (List Int)) :
    ∃ t', t.fixConfigs calls = .ok t' ∧
      (∀ id ∈ t.serverId, (∀ dead ∈ calls, id ∉ dead) → id ∈ t'.serverId) ∧
      (∀ dead ∈ calls, ∀ id ∈ dead, id ∉ t.agentId → id ∉ t'.serverId) ∧
      t'.partition.length = t'.serverId.length ∧
      t'.partition.Pairwise (· ≤ ·) ∧
      t'.entries = (t.entries.filter fun e ↦ decide (e.1 ∈ t'.serverId)) ∧
      t'.keyRange = t.keyRange ∧
      (t'.serverId ≠ [] → ∃ p p',
        Partition.initializePartition t.keyRange t.serverId.length t.partition = .ok p ∧
        Partition.initializePartition t'.keyRange t'.serverId.length t'.partition = .ok p' ∧
        ∀ key, 0 ≤ key → key < t.keyRange → ∃ (i : ℕ) (d d' : Int),
          p.getServerByKey key = i ∧ t.serverId[i]? = some d ∧
          Checked.get t'.serverId (p'.getServerByKey key) = .ok d' ∧
          (d ∈ t'.serverId → d' = d) ∧
          Arcs.NearestBefore t.serverId (fun b ↦ b ∈ t'.serverId) i d') := by
  obtain ⟨t', ht', hkeeps⟩ := fixConfigs_keeps calls hnodup hlen
  have hentries := hkeeps.entries_eq hnodup hlen
  have hsorted' : t'.partition.Pairwise (· ≤ ·) := by
    rw [← map_snd_entries hkeeps.length]
    rw [← map_snd_entries hlen] at hsorted
    exact hsorted.sublist (hkeeps.entries.map Prod.snd)
  refine ⟨t', ht', fun id hid hnot ↦ hkeeps.spared id hid fun hmem ↦ ?_,
    fun dead hdead id hid ↦ hkeeps.taken id (List.mem_flatten_of_mem hdead hid),
    hkeeps.length, hsorted', hentries, hkeeps.keyRange, fun hne ↦ ?_⟩
  · obtain ⟨dead, hdead, hid⟩ := List.mem_flatten.1 hmem
    exact hnot dead hdead hid
  have hpos : 0 < t'.serverId.length := List.length_pos_iff.2 hne
  have hle := (hkeeps.serverId hlen).length_le
  obtain ⟨p, hp, hrange, -, hpart⟩ := Partition.initializePartition_ok t.keyRange
    (show (0 : Int) < t.serverId.length by omega) (congrArg Nat.cast hlen)
  obtain ⟨p', hp', hrange', -, hpart'⟩ := Partition.initializePartition_ok t'.keyRange
    (show (0 : Int) < t'.serverId.length by omega) (congrArg Nat.cast hkeeps.length)
  refine ⟨p, p', hp, hp', fun key hlo hhi ↦ ?_⟩
  obtain ⟨e, -, hserver, he⟩ := exists_owner hlen hsorted hpart
    (show p.InRange key from ⟨hlo, by rw [hrange]; exact hhi⟩)
  obtain ⟨e', howner', hserver', he'⟩ := exists_owner hkeeps.length hsorted' hpart'
    (show p'.InRange key from ⟨hlo, by rw [hrange', hkeeps.keyRange]; exact hhi⟩)
  rw [hentries] at howner'
  have hnearest := (Arcs.nearestBefore_of_owner (initial_upTo hlen hsorted key) howner').map
    (f := Prod.fst) (Q := fun b ↦ decide (b ∈ t'.serverId) = true)
  simp only [decide_eq_true_eq, map_fst_entries hlen] at hnearest
  refine ⟨_, e.1, e'.1, hserver, he, ?_, fun hleft ↦ ?_, hnearest⟩
  · rw [hserver']
    exact Checked.get_natCast he'
  · exact hnearest.eq_of_left (List.getElem?_eq_some_iff.1 he).1 he hleft

/-- Three servers, two of which have the same boundary, and an agent. -/
def sharedBoundary : TaskConfig where
  workerNum := 1
  serverNum := 3
  keyRange := 10
  backupSize := 0
  partition := [2, 5, 5]
  serverId := [1, 2, 3]
  agentId := [4]
  masterId := [0]
  bound := 1
  configChanged := false

/-- The first server dies, is reported twice, and together with others.  The last takes over. -/
theorem removal_keeps_owners_sharedBoundary :
    ∃ t', sharedBoundary.fixConfigs [[1, 9, 4], [1]] = .ok t' ∧
    1 ∉ t'.serverId ∧ 2 ∈ t'.serverId ∧ 3 ∈ t'.serverId ∧ ∃ p p',
      Partition.initializePartition 10 3 [2, 5, 5] = .ok p ∧
      Partition.initializePartition t'.keyRange t'.serverId.length t'.partition = .ok p' ∧
      ∃ (i : ℕ) (d d' : Int), p.getServerByKey 3 = i ∧ sharedBoundary.serverId[i]? = some d ∧
        Checked.get t'.serverId (p'.getServerByKey 3) = .ok d' ∧
        Arcs.NearestBefore sharedBoundary.serverId (fun b ↦ b ∈ t'.serverId) i d' := by
  obtain ⟨t', ht', hspared, htaken, -, -, -, -, howners⟩ :=
    removal_keeps_owners (t := sharedBoundary) (by decide) (by decide) (by decide) [[1, 9, 4], [1]]
  have hthree : 3 ∈ t'.serverId := hspared 3 (by decide) (by decide)
  obtain ⟨p, p', hp, hp', hkeys⟩ := howners (List.ne_nil_of_mem hthree)
  obtain ⟨i, d, d', hi, hd, hd', -, hnearest⟩ := hkeys 3 (by decide) (by decide)
  exact ⟨t', ht', htaken [1] (by decide) 1 (by decide) (by decide),
    hspared 2 (by decide) (by decide), hthree, p, p', hp, hp', i, d, d', hi, hd, hd', hnearest⟩

end TaskConfig

end Rpscc
