import Rpscc.Agent.Blocks

/-!
# Every pair to its owner

A push is correct when every pair of the gradient arrives once, and at the server that owns its key.
`Agent.push_delivers_once` says so for keys of the key space.

For keys outside of it nothing works.  `GetServerByKey` answers `-1`, and neither `NextEnding` nor
the loop that calls it looks at the answer: `server_ids_` is read at `-1`, or the loop makes no
progress, or the key is sent with the keys of the last server.  One such key is enough
(`splits_iff`).
-/

set_option autoImplicit false

namespace Rpscc

variable {F : Type}

/-! ## What arrives where -/

/-- The pairs of a request, each with the node it is sent to. -/
def Sent.deliveries (m : Sent F) : List (Int × Int × F) :=
  match m.msg.requestMsg with
  | none => []
  | some r => (r.keys.zip r.values).map fun e ↦ (m.dst, e)

/-- A push request: it is addressed to the node it is sent to, has a value for every key, and its
keys increase. -/
structure Sent.IsPush (m : Sent F) (r : RequestMessage F) : Prop where
  recvId : m.msg.recvId = m.dst
  messageType : m.msg.messageType = .request
  requestMsg : m.msg.requestMsg = some r
  requestType : r.requestType = .keyValue
  length_eq : r.keys.length = r.values.length
  increasing : r.keys.Pairwise (· < ·)

namespace Agent

/-- A pair with the server that owns its key. -/
def route (ag : Agent F) (e : Int × F) : Except Fault (Int × Int × F) := do
  let id ← Checked.get ag.serverIds (ag.partition.getServerByKey e.1)
  .ok (id, e)

section

variable {ag : Agent F}

theorem route_eq (hr : ag.CanRoute) {e : Int × F} (he : ag.partition.InRange e.1) :
    ag.route e
      = .ok (ag.partition.ownerId ag.serverIds (ag.partition.slot e.1), e) := by
  rw [route, Partition.getServerByKey_eq hr.ordered he,
    Partition.get_ownerId hr.length_ids (ag.partition.slot_le e.1), Checked.ok_bind]

theorem deliveries_pushPart (ag : Agent F) (ps : List (Int × F)) (s : ℕ) :
    (ag.pushPart ps s).deliveries = (part ag.partition ps s).map fun e ↦
      (ag.partition.ownerId ag.serverIds (ag.partition.slot e.1), e) := by
  have hzip : ((part ag.partition ps s).map Prod.fst).zip ((part ag.partition ps s).map Prod.snd)
      = part ag.partition ps s := by
    rw [← List.unzip_fst, ← List.unzip_snd]
    exact List.zip_unzip _
  rw [Sent.deliveries, pushPart]
  simp only [hzip]
  refine List.map_congr_left fun e he ↦ ?_
  have hslot : ag.partition.slot e.1 = s := by simpa using (List.mem_filter.1 he).2
  rw [hslot]

/-- **Every pair is delivered once, to the owner of its key**, and the keys of every message
increase. -/
theorem push_delivers_once (hr : ag.CanRoute) (hg : ag.gradients.Distinct)
    (hin : ∀ k ∈ ag.gradients.usedKeys, ag.partition.InRange k) :
    ∃ ag' sent routed, ag.push = .ok (ag', sent) ∧
      ag.gradients.pairs.mapM ag.route = .ok routed ∧
      (sent.flatMap Sent.deliveries).Perm routed ∧ ∀ m ∈ sent, ∃ r, m.IsPush r := by
  obtain ⟨g, hpush⟩ := push_eq hr hg hin
  have hperm := Shmstruct.sortedPairs_perm hg
  have hmem : ∀ e ∈ ag.gradients.pairs, e.1 ∈ ag.gradients.usedKeys := by
    intro e he
    rw [← ag.gradients.map_fst_pairs]
    exact List.mem_map_of_mem he
  have hroute := Checked.mapM_ok fun e he ↦ route_eq hr (hin e.1 (hmem e he))
  refine ⟨_, _, _, hpush, hroute, ?_, fun m hm ↦ ?_⟩
  · have hbins := Lists.flatMap_filter_perm (f := fun e : Int × F ↦ ag.partition.slot e.1)
      (l := ag.gradients.sortedPairs)
      (ag.partition.nodup_slotsOf ag.gradients.usedKeys) fun e he ↦
        Partition.mem_slotsOf.2 ⟨e.1, hmem e (hperm.mem_iff.1 he), rfl⟩
    rw [List.flatMap_map]
    simp only [deliveries_pushPart]
    rw [← List.map_flatMap]
    exact (hbins.trans hperm).map _
  · obtain ⟨s, -, rfl⟩ := List.mem_map.1 hm
    refine ⟨_, rfl, rfl, rfl, rfl, by rw [List.length_map, List.length_map], ?_⟩
    exact ag.gradients.sortedPairs_pairwise.sublist (List.filter_sublist.map Prod.fst)

end

/-- Ten keys for two servers, of which the first owns those from `2` to `6`. -/
def wrappingParts : Partition := ⟨10, 2, [2, 7], rfl, by decide⟩

theorem wrappingParts_ordered : wrappingParts.Ordered := by
  rw [Partition.Ordered, wrappingParts]
  decide

/-- An agent of two servers. -/
def wrapping (gradients : Shmstruct Int) : Agent Int where
  localId := 2
  agentNum := 1
  serverNum := 2
  keyRange := 10
  epochNum := 0
  serverIds := [1, 3]
  masterIds := [0]
  sender := Communicator.empty
  gradients := gradients
  parameters := noPairs
  partition := wrappingParts

theorem wrapping_canRoute (gradients : Shmstruct Int) : (wrapping gradients).CanRoute :=
  ⟨wrappingParts_ordered, rfl, show [(1 : Int), 3].Nodup by decide⟩

/-- Three pairs that are out of order.  Server `3` owns two of them, one at each end of the key
space. -/
theorem push_delivers_once_three : ∃ ag' sent,
    (wrapping (.ofPairs 0 [(8, 80), (3, 30), (1, 10)] (by decide))).push = .ok (ag', sent) ∧
    (sent.flatMap Sent.deliveries).Perm [(3, 8, 80), (1, 3, 30), (3, 1, 10)] := by
  obtain ⟨ag', sent, routed, hpush, hrouted, hperm, -⟩ := push_delivers_once
    (wrapping_canRoute (.ofPairs 0 [(8, 80), (3, 30), (1, 10)] (by decide)))
    ⟨by decide, by decide, by decide⟩ (by simp [wrapping, wrappingParts, Partition.InRange])
  cases hrouted
  exact ⟨ag', sent, hpush, hperm⟩

end Agent

/-! ## Keys outside the key space -/

/-- The keys of the block are all of the key space, or all outside. -/
def Partition.Unmixed (p : Partition) (keys : List Int) (b : Block) : Prop :=
  (∀ k ∈ Sorted.slice keys b.start b.stop, p.InRange k) ∨
    ∀ k ∈ Sorted.slice keys b.start b.stop, ¬ p.InRange k

/-- The keys can be cut: `NextEnding` makes progress wherever it is called, the loop ends without a
bad index, and what it sends together is not mixed. -/
structure Partition.Splits (p : Partition) (serverIds keys : List Int) : Prop where
  progress : ∀ start < keys.length,
    ∃ stop server, p.nextEnding keys start = .ok (stop, server) ∧ start < stop
  ends : ∃ fuel blocks, splitKeys p serverIds keys fuel 0 = .ok blocks ∧
    ∀ b ∈ blocks, p.Unmixed keys b

namespace Partition

variable {p : Partition} {serverIds keys : List Int}

theorem getServerByKey_of_not_inRange {key : Int} (h : ¬ p.InRange key) :
    p.getServerByKey key = -1 := by
  rw [InRange] at h
  rw [getServerByKey, if_pos (by omega)]

/-- The server of a block is the answer for its first key, whatever that is. -/
theorem nextEnding_server {start stop : ℕ} {server : Int}
    (h : p.nextEnding keys start = .ok (stop, server)) :
    ∃ key, keys[start]? = some key ∧ p.getServerByKey key = server := by
  rw [nextEnding, Checked.bind_eq_ok] at h
  obtain ⟨key, hget, h⟩ := h
  refine ⟨key, by simpa using (Checked.get_eq_ok_iff.1 hget).2, ?_⟩
  simp only at h
  split at h
  · cases h
    rfl
  · split at h
    · cases h
      rfl
    · rw [Checked.bind_eq_ok] at h
      obtain ⟨boundary, -, h⟩ := h
      cases h
      rfl

/-- What the loop cuts into blocks that are not mixed is of the key space: the first key of a block
is, since its server has been looked up. -/
theorem inRange_of_splitKeys (hp : p.Ordered) :
    ∀ (fuel start : ℕ) {blocks : List Block},
      splitKeys p serverIds keys fuel start = .ok blocks → (∀ b ∈ blocks, p.Unmixed keys b) →
      ∀ k ∈ keys.drop start, p.InRange k := by
  intro fuel
  induction fuel with
  | zero =>
    intro start blocks h _ k hk
    rw [splitKeys] at h
    split at h
    · simp at h
    · rename_i hge
      rw [List.drop_eq_nil_of_le (not_lt.1 hge)] at hk
      exact absurd hk List.not_mem_nil
  | succ fuel ih =>
    intro start blocks h hunmixed k hk
    rw [splitKeys] at h
    split at h
    · rw [Checked.bind_eq_ok] at h
      obtain ⟨⟨stop, server⟩, hnext, h⟩ := h
      rw [Checked.bind_eq_ok] at h
      obtain ⟨id, hid, h⟩ := h
      rw [Checked.bind_eq_ok] at h
      obtain ⟨rest, hrest, h⟩ := h
      cases h
      rw [List.forall_mem_cons] at hunmixed
      obtain ⟨key, hget, hserver⟩ := nextEnding_server hnext
      have hin : p.InRange key := by
        by_contra hout
        have hnonneg := (Checked.get_eq_ok_iff.1 hid).1
        rw [← hserver, getServerByKey_of_not_inRange hout] at hnonneg
        omega
      obtain ⟨stop', hnext', hlt⟩ := nextEnding_progress hp hget hin
      cases hnext.symm.trans hnext'
      -- the block is not empty, so its first key decides
      have hblock : ∀ k ∈ Sorted.slice keys start stop, p.InRange k := by
        refine hunmixed.1.resolve_right fun hnone ↦ hnone key ?_ hin
        obtain ⟨hstart, rfl⟩ := List.getElem?_eq_some_iff.1 hget
        rw [Sorted.slice, List.drop_eq_getElem_cons hstart,
          show stop - start = stop - start - 1 + 1 by omega, List.take_succ_cons]
        exact List.mem_cons_self
      rw [← List.take_append_drop (stop - start) (keys.drop start), List.drop_drop,
        show start + (stop - start) = stop by omega, List.mem_append] at hk
      rcases hk with hk | hk
      · exact hblock k hk
      · exact ih stop hrest hunmixed.2 k hk
    · rename_i hge
      rw [List.drop_eq_nil_of_le (not_lt.1 hge)] at hk
      exact absurd hk List.not_mem_nil

/-- **The keys can be cut if and only if they are all of the key space.** -/
theorem splits_iff (hp : p.Ordered) (hids : serverIds.length = p.partVec.length)
    (hk : keys.Pairwise (· ≤ ·)) :
    p.Splits serverIds keys ↔ ∀ k ∈ keys, p.InRange k := by
  constructor
  · rintro ⟨-, fuel, blocks, hsplit, hunmixed⟩
    exact inRange_of_splitKeys hp fuel 0 hsplit hunmixed
  · intro hin
    refine ⟨fun start hstart ↦ ?_, keys.length, _, splitKeys_eq hp hids hk hin, fun b _ ↦ ?_⟩
    · obtain ⟨stop, hnext, hlt⟩ := nextEnding_progress hp (List.getElem?_eq_getElem hstart)
        (hin _ (List.getElem_mem hstart))
      exact ⟨stop, _, hnext, hlt⟩
    · exact .inl fun k hmem ↦ hin k (List.mem_of_mem_drop (List.mem_of_mem_take hmem))

/-- Keys of both servers, and of both ends of the key space. -/
theorem splits_iff_three : Agent.wrappingParts.Splits [1, 3] [1, 3, 8] := by
  have hk : [(1 : Int), 3, 8].Pairwise (· ≤ ·) := by decide
  have hids : [(1 : Int), 3].length = Agent.wrappingParts.partVec.length := rfl
  refine (splits_iff Agent.wrappingParts_ordered hids hk).2 ?_
  simp [Agent.wrappingParts, InRange]

/-- **Keys outside the key space break all three.**  At `10` there is no progress, so that the loop
would go on with the same block for ever if it could look up its server; at `-1` the server is
looked up at `-1`; and with `9`, which server `3` owns, it is sent `10` as well. -/
theorem outside_keys_break :
    Agent.wrappingParts.nextEnding [10] 0 = .ok (0, -1) ∧ ¬ Agent.wrappingParts.Splits [1, 3] [10] ∧
    (∀ fuel blocks, splitKeys Agent.wrappingParts [1, 3] [-1] fuel 0 ≠ .ok blocks) ∧
    ¬ Agent.wrappingParts.Splits [1, 3] [-1] ∧
    splitKeys Agent.wrappingParts [1, 3] [9, 10] 2 0 = .ok [⟨3, 0, 2⟩] ∧
    ¬ Agent.wrappingParts.Unmixed [9, 10] ⟨3, 0, 2⟩ ∧
    ¬ Agent.wrappingParts.Splits [1, 3] [9, 10] := by
  have hstuck : Agent.wrappingParts.nextEnding [10] 0 = .ok (0, -1) := rfl
  have hlookup : ∀ fuel blocks, splitKeys Agent.wrappingParts [1, 3] [-1] fuel 0 ≠ .ok blocks := by
    intro fuel blocks h
    cases fuel <;> cases h
  have hmixed : ¬ Agent.wrappingParts.Unmixed [9, 10] ⟨3, 0, 2⟩ := by
    simp [Unmixed, Sorted.slice, Agent.wrappingParts, InRange]
  refine ⟨hstuck, fun h ↦ ?_, hlookup, fun h ↦ ?_, rfl, hmixed, fun h ↦ ?_⟩
  · obtain ⟨stop, server, hnext, hlt⟩ := h.progress 0 (by decide)
    cases hstuck.symm.trans hnext
    exact absurd hlt (lt_irrefl 0)
  · obtain ⟨fuel, blocks, hsplit, -⟩ := h.ends
    exact hlookup fuel blocks hsplit
  · -- behind the `9` the `10` is a valid start as well
    obtain ⟨stop, server, hnext, hlt⟩ := h.progress 1 (by decide)
    cases hnext
    exact absurd hlt (by decide)

end Partition

end Rpscc
