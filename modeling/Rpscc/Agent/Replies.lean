import Rpscc.Agent.Blocks

/-!
# When a push and a pull return

A push returns when its keys are of the key space (`Agent.workPush_returns`).  A pull goes on to
receive until every server it has asked has replied.  It writes what it receives behind what it has,
without a look at the room that is left, and what it cannot use it passes over.

`Agent.replyOf` picks the replies out of what is received, and `Agent.Answered` says what has to be
among them; then the pull returns, in whatever order they come and whatever comes between them
(`Agent.workPull_returns`).  Neither call changes where the agent sends to, so both can be made
again (`Agent.SameRoutes`).
-/

set_option autoImplicit false

namespace Rpscc

variable {F : Type}

/-- What a worker may ask for or hand over: at most a hundred pairs, with keys of the key space. -/
structure Shmstruct.Usable (g : Shmstruct F) (p : Partition) : Prop where
  nonneg : 0 ≤ g.size
  le : g.size ≤ 100
  inRange : ∀ k ∈ g.usedKeys, p.InRange k

namespace Agent

/-! ## The loop that receives -/

/-- The loop `while (!server_set.empty())`, on what `Receive` returns. -/
def Pulling.receiveAll (w : Pulling F) : List (Option (Message F)) → Except Fault (Pulling F)
  | [] => if w.serverSet = [] then .ok w else .error .outOfFuel
  | m :: ms =>
    if w.serverSet = [] then .ok w
    else do
      let w ← w.receive m
      w.receiveAll ms

/-- The reply to node `recvId` that has been received, if it is one, with the node it is from. -/
def replyOf (recvId : Int) : Option (Message F) → Option (Int × RequestMessage F)
  | none => none
  | some m =>
    match m.requestMsg with
    | none => none
    | some request =>
      if m.messageType = .request ∧ m.recvId = recvId ∧ request.requestType = .keyValue then
        some (m.sendId, request)
      else
        none

/-- Among what is received there is a reply from every node of `ids`; the replies have a value for
every key, and not more than `room` keys in all. -/
structure Answered (recvId : Int) (ids : List Int) (room : ℕ)
    (received : List (Option (Message F))) : Prop where
  replied : ∀ id ∈ ids, ∃ request, (id, request) ∈ received.filterMap (replyOf recvId)
  fits : ((received.filterMap (replyOf recvId)).map fun r ↦ r.2.keys.length).sum ≤ room
  values : ∀ r ∈ received.filterMap (replyOf recvId), r.2.keys.length ≤ r.2.values.length

section

variable {recvId id : Int} {ids : List Int} {room : ℕ} {request : RequestMessage F}
  {m : Option (Message F)} {ms : List (Option (Message F))}

theorem sendId_of_replyOf {m : Message F} (h : replyOf recvId (some m) = some (id, request)) :
    m.sendId = id := by
  rw [replyOf] at h
  split at h
  · cases h
  · split at h
    · cases h
      rfl
    · cases h

/-- Without what is no reply. -/
theorem Answered.of_none (h : Answered recvId ids room (m :: ms)) (hm : replyOf recvId m = none) :
    Answered recvId ids room ms := by
  obtain ⟨hreplied, hfits, hvalues⟩ := h
  rw [List.filterMap_cons_none hm] at hreplied hfits hvalues
  exact ⟨hreplied, hfits, hvalues⟩

/-- Without the first reply, for those that it is not from. -/
theorem Answered.tail (h : Answered recvId ids room (m :: ms))
    (hm : replyOf recvId m = some (id, request)) (ids' : List Int)
    (hids : ∀ id' ∈ ids', id' ∈ ids ∧ id' ≠ id) :
    request.keys.length ≤ room ∧ request.keys.length ≤ request.values.length ∧
      Answered recvId ids' (room - request.keys.length) ms := by
  obtain ⟨hreplied, hfits, hvalues⟩ := h
  rw [List.filterMap_cons_some hm] at hreplied hfits hvalues
  rw [List.map_cons, List.sum_cons] at hfits
  dsimp only at hfits
  rw [List.forall_mem_cons] at hvalues
  refine ⟨by omega, hvalues.1, fun id' hid' ↦ ?_, by omega, hvalues.2⟩
  obtain ⟨hmem, hne⟩ := hids id' hid'
  obtain ⟨r, hr⟩ := hreplied id' hmem
  rcases List.mem_cons.1 hr with heq | hr
  · exact absurd (congrArg Prod.fst heq) hne
  · exact ⟨r, hr⟩

theorem Answered.mono {room' : ℕ} (h : Answered recvId ids room ms) (hle : room ≤ room') :
    Answered recvId ids room' ms :=
  ⟨h.replied, h.fits.trans hle, h.values⟩

end

/-! ## Where the agent sends to -/

/-- Both send to the same servers, and under the same id. -/
structure SameRoutes (ag ag' : Agent F) : Prop where
  localId : ag'.localId = ag.localId
  serverIds : ag'.serverIds = ag.serverIds
  partition : ag'.partition = ag.partition

namespace SameRoutes

variable {ag ag' ag'' : Agent F}

theorem refl (ag : Agent F) : ag.SameRoutes ag := ⟨rfl, rfl, rfl⟩

theorem trans (h : ag.SameRoutes ag') (h' : ag'.SameRoutes ag'') : ag.SameRoutes ag'' :=
  ⟨h'.localId.trans h.localId, h'.serverIds.trans h.serverIds, h'.partition.trans h.partition⟩

theorem canRoute (h : ag.SameRoutes ag') (hr : ag.CanRoute) : ag'.CanRoute := by
  obtain ⟨hordered, hlength, hnodup⟩ := hr
  rw [← h.partition] at hordered hlength
  rw [← h.serverIds] at hlength hnodup
  exact ⟨hordered, hlength, hnodup⟩

theorem pullSet_eq (h : ag.SameRoutes ag') (keys : List Int) :
    ag'.pullSet keys = ag.pullSet keys := by
  rw [pullSet, pullSet, h.serverIds, h.partition]

end SameRoutes

namespace Pulling

variable {w : Pulling F} {m : Option (Message F)} {ms : List (Option (Message F))}

/-- The loop takes the replies of the servers that it waits for. -/
theorem check_eq (w : Pulling F) (m : Message F) :
    w.check m = match replyOf w.agent.localId (some m) with
      | none => none
      | some (id, request) => if id ∈ w.serverSet then some request else none := by
  rw [check, replyOf]
  cases m.requestMsg with
  | none => simp
  | some request =>
    by_cases htype : m.messageType = .request
    · by_cases hrecv : m.recvId = w.agent.localId
      · by_cases hkind : request.requestType = .keyValue
        · simp [htype, hrecv, hkind]
        · simp [htype, hrecv, hkind]
      · simp [htype, hrecv]
    · simp [htype]

/-- The reply of a server that it waits for is written, and the server struck off. -/
theorem receive_reply {m : Message F} {id : Int} {request : RequestMessage F}
    (hm : replyOf w.agent.localId (some m) = some (id, request)) (hid : id ∈ w.serverSet)
    (hvalues : request.keys.length ≤ request.values.length)
    (hroom : w.cur + request.keys.length ≤ 100) :
    ∃ parameters, w.receive (some m) = .ok ⟨{ w.agent with parameters := parameters },
      w.serverSet.erase id, w.cur + request.keys.length⟩ := by
  have hlen : (request.keys.zip request.values).length = request.keys.length := by
    rw [List.length_zip, Nat.min_eq_left hvalues]
  obtain ⟨g, hwrite, -⟩ := w.agent.parameters.writePairs_eq (hlen.symm ▸ hroom)
  rw [receive, check_eq, hm]
  simp only [if_pos hid, Checked.zip_eq hvalues, Checked.ok_bind, hwrite, sendId_of_replyOf hm,
    hlen]
  exact ⟨g, rfl⟩

/-- Whatever is received, there is room for it, and what comes after it is enough for the servers
that are left. -/
theorem receive_ok (hnodup : w.serverSet.Nodup) (hcur : w.cur ≤ 100)
    (h : Answered w.agent.localId w.serverSet (100 - w.cur) (m :: ms)) :
    ∃ w' : Pulling F, w.receive m = .ok w' ∧ w.agent.SameRoutes w'.agent ∧ w'.serverSet.Nodup ∧
      w'.cur ≤ 100 ∧ Answered w'.agent.localId w'.serverSet (100 - w'.cur) ms := by
  cases hm : replyOf w.agent.localId m with
  | none =>
    refine ⟨w, ?_, .refl _, hnodup, hcur, h.of_none hm⟩
    cases m with
    | none => rfl
    | some m => rw [receive, check_eq, hm]
  | some reply =>
    obtain ⟨id, request⟩ := reply
    obtain ⟨m, rfl⟩ : ∃ m', m = some m' := by
      cases m with
      | none => cases hm
      | some m => exact ⟨m, rfl⟩
    by_cases hid : id ∈ w.serverSet
    · obtain ⟨hroom, hvalues, hrest⟩ := h.tail hm (w.serverSet.erase id)
        fun id' hid' ↦ (hnodup.mem_erase_iff.1 hid').symm
      obtain ⟨parameters, hreceive⟩ := receive_reply hm hid hvalues (by omega)
      refine ⟨_, hreceive, ⟨rfl, rfl, rfl⟩, hnodup.erase id, ?_, ?_⟩
      · dsimp only
        omega
      · dsimp only
        rwa [← Nat.sub_sub]
    · -- of a server that has replied already, or was not asked
      obtain ⟨-, -, hrest⟩ := h.tail hm _ fun id' hid' ↦ ⟨hid', fun heq ↦ hid (heq ▸ hid')⟩
      refine ⟨w, ?_, .refl _, hnodup, hcur, hrest.mono (Nat.sub_le _ _)⟩
      rw [receive, check_eq, hm]
      simp only [hid, if_false]

/-- **The loop ends**, when there is a reply from every server that it waits for. -/
theorem receiveAll_ok : ∀ {ms : List (Option (Message F))} {w : Pulling F}, w.serverSet.Nodup →
    w.cur ≤ 100 → Answered w.agent.localId w.serverSet (100 - w.cur) ms →
      ∃ w' : Pulling F, w.receiveAll ms = .ok w' ∧ w.agent.SameRoutes w'.agent
  | [], w, _, _, h => by
    have hset : w.serverSet = [] := by
      refine List.eq_nil_iff_forall_not_mem.2 fun id hid ↦ ?_
      obtain ⟨request, hmem⟩ := h.replied id hid
      cases hmem
    exact ⟨w, by rw [receiveAll, if_pos hset], .refl _⟩
  | m :: ms, w, hnodup, hcur, h => by
    rw [receiveAll]
    by_cases hset : w.serverSet = []
    · exact ⟨w, if_pos hset, .refl _⟩
    · obtain ⟨w₁, hreceive, hsame, hnodup₁, hcur₁, hrest⟩ := receive_ok hnodup hcur h
      obtain ⟨w', hall, hsame'⟩ := receiveAll_ok hnodup₁ hcur₁ hrest
      rw [if_neg hset, hreceive, Checked.ok_bind]
      exact ⟨w', hall, hsame.trans hsame'⟩

end Pulling

/-! ## The calls -/

variable {ag ag' : Agent F} {g : Shmstruct F}

/-- **A push returns.** -/
theorem workPush_returns (hr : ag.CanRoute) (hg : g.Usable ag.partition) :
    ∃ ag' sent, ag.workPush g = .ok (ag', sent) ∧ ag.SameRoutes ag' := by
  have hroute : { ag with gradients := g }.CanRoute := ⟨hr.ordered, hr.length_ids, hr.nodup_ids⟩
  obtain ⟨g', sent, hpush⟩ := push_ok hroute hg.nonneg hg.le hg.inRange
  rw [workPush, hpush, Checked.ok_bind]
  exact ⟨_, sent, rfl, rfl, rfl, rfl⟩

/-- **A pull returns** when the servers it asks reply. -/
theorem workPull_returns (hr : ag.CanRoute) (hg : g.Usable ag.partition)
    {received : List (Option (Message F))}
    (hanswered : Answered ag.localId (ag.pullSet g.usedKeys) 100 received) :
    ∃ w sent w', ag.workPull g = .ok (w, sent) ∧ w.receiveAll received = .ok w' ∧
      ag.SameRoutes w'.finish := by
  have hroute : { ag with parameters := g }.CanRoute := ⟨hr.ordered, hr.length_ids, hr.nodup_ids⟩
  obtain ⟨g', hpull, -⟩ := sendPull_eq hroute hg.nonneg hg.le hg.inRange
  obtain ⟨w', hall, hsame⟩ := Pulling.receiveAll_ok
    (w := ⟨{ ag with parameters := { g' with size := 0 } }, ag.pullSet g.usedKeys, 0⟩)
    (ag.nodup_pullSet _) (Nat.zero_le _) hanswered
  exact ⟨_, _, w', hpull, hall, hsame.localId, hsame.serverIds, hsame.partition⟩

end Agent

end Rpscc
