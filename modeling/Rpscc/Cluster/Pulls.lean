import Mathlib.Logic.Relation
import Rpscc.Cluster.Versions
import Rpscc.Server.Serve

/-!
# Sequences of pulls

One agent pulls again and again.  `PullNet` is the agent with its requests on their way to the
servers and their replies on the way back, first in, first out for each server; the servers answer
every request once, and other messages may arrive at any time.  Requests and replies carry the
number of the pull they belong to, and the answers and the results are logged.  The code sees none
of this.

`Agent::Pull` sends a request a block and then waits for one reply *from each server*.  So it gives
up on the second reply of the last server when the keys are at both ends of its range, and takes
that reply for an answer to the next pull.  When no pull does this, every pull returns what was
asked for (`pull_returns`).
-/

set_option autoImplicit false

namespace Rpscc

variable {F : Type}

/-- What the agent is doing. -/
inductive Activity (F : Type)
  | idle (ag : Agent F)
  | pulling (w : Agent.Pulling F)

/-- An agent that pulls, and the messages between it and the servers, the oldest first. -/
structure PullNet (F : Type) where
  agent : Activity F
  requests : Int → List (ℕ × Message F)
  replies : Int → List (ℕ × Message F)
  /-- The blocks pulled so far. -/
  pulls : List (Shmstruct F)
  /-- What the servers have answered so far. -/
  answers : List (ℕ × Message F)
  /-- What the pulls that have returned left in `parameters_`. -/
  results : List (Shmstruct F)

namespace PullNet

/-- Nothing has been pulled yet. -/
def start (ag : Agent F) : PullNet F where
  agent := .idle ag
  requests := fun _ ↦ []
  replies := fun _ ↦ []
  pulls := []
  answers := []
  results := []

/-- The reply of server `id` to a pull of agent `recvId`. -/
def answer (id recvId : Int) (keys : List Int) (values : List F) : Message F where
  sendId := id
  recvId := recvId
  messageType := .request
  requestMsg := some ⟨.keyValue, keys, values⟩

/-- It is the one the server builds. -/
@[simp] theorem reply_msg (s : Server F) (recvId : Int) (keys : List Int) (values : List F) :
    (s.reply recvId keys values).msg = answer s.localId recvId keys values := rfl

/-- The requests for server `id`, with the number of the pull. -/
def requestsFor (i : ℕ) (id : Int) (sent : List (Sent F)) : List (ℕ × Message F) :=
  (sent.filter fun m ↦ decide (m.dst = id)).map fun m ↦ (i, m.msg)

/-- The keys of a pull: at most a hundred, distinct, in the key space. -/
structure Pullable (p : Partition) (g : Shmstruct F) : Prop where
  distinct : g.Distinct
  inRange : ∀ k ∈ g.usedKeys, p.InRange k

/-- A step of the agent or of a server.  The agent pulls only what `ok` admits. -/
inductive Step (p : Partition) (ok : List Int → Prop) : PullNet F → PullNet F → Prop
  | pull {n : PullNet F} {ag : Agent F} {g : Shmstruct F} {w : Agent.Pulling F}
      {sent : List (Sent F)} (hidle : n.agent = .idle ag) (hg : Pullable p g)
      (hok : ok g.usedKeys) (hsend : ag.workPull g = .ok (w, sent)) :
      Step p ok n { n with
        agent := .pulling w
        requests := fun id ↦ n.requests id ++ requestsFor n.pulls.length id sent
        pulls := n.pulls ++ [g] }
  | answer {n : PullNet F} {id : Int} {i : ℕ} {m : Message F} {rest : List (ℕ × Message F)}
      {request : RequestMessage F} {values : List F} (hm : n.requests id = (i, m) :: rest)
      (hrequest : m.requestMsg = some request) (hvalues : values.length = request.keys.length) :
      Step p ok n { n with
        requests := Function.update n.requests id rest
        replies := Function.update n.replies id
          (n.replies id ++ [(i, PullNet.answer id m.sendId request.keys values)])
        answers := n.answers ++ [(i, PullNet.answer id m.sendId request.keys values)] }
  | receive {n : PullNet F} {w w' : Agent.Pulling F} {id : Int} {i : ℕ} {m : Message F}
      {rest : List (ℕ × Message F)} (hw : n.agent = .pulling w) (hset : w.serverSet ≠ [])
      (hm : n.replies id = (i, m) :: rest) (hreceive : w.receive (some m) = .ok w') :
      Step p ok n { n with
        agent := .pulling w'
        replies := Function.update n.replies id rest }
  | noise {n : PullNet F} {w w' : Agent.Pulling F} {m : Option (Message F)}
      (hw : n.agent = .pulling w) (hset : w.serverSet ≠ [])
      (hcheck : ∀ m', m = some m' → w.check m' = none) (hreceive : w.receive m = .ok w') :
      Step p ok n { n with agent := .pulling w' }
  | finish {n : PullNet F} {w : Agent.Pulling F} (hw : n.agent = .pulling w)
      (hset : w.serverSet = []) :
      Step p ok n { n with
        agent := .idle w.finish
        results := n.results ++ [w.finish.parameters] }

/-! ## What a pull returns -/

/-- The pair comes from an answer to pull `i`, by the server that owns its key. -/
def Answered (ag : Agent F) (answers : List (ℕ × Message F)) (i : ℕ) (e : Int × F) : Prop :=
  ∃ m request, (i, m) ∈ answers ∧ m.requestMsg = some request ∧
    e ∈ request.keys.zip request.values ∧
    Checked.get ag.serverIds (ag.partition.getServerByKey e.1) = .ok m.sendId

/-- Pull `i` of the block `g` has returned what was asked for. -/
structure Returned (ag : Agent F) (answers : List (ℕ × Message F)) (i : ℕ)
    (g result : Shmstruct F) : Prop where
  size : result.size = g.size
  keys : result.usedKeys.Perm g.usedKeys
  values : ∀ e ∈ result.pairs, Answered ag answers i e

theorem Answered.mono {ag : Agent F} {answers : List (ℕ × Message F)} {i : ℕ} {e : Int × F}
    (h : Answered ag answers i e) (a : ℕ × Message F) : Answered ag (answers ++ [a]) i e := by
  obtain ⟨m, request, hm, h⟩ := h
  exact ⟨m, request, List.mem_append_left _ hm, h⟩

/-! ## The invariant -/

/-- The id of the server that owns the key. -/
def ownerOf (ag : Agent F) (key : Int) : Int :=
  ag.partition.ownerId ag.serverIds (ag.partition.slot key)

/-- The one message between the agent and a server that still has to answer pull `i`. -/
inductive InFlight (ag : Agent F) (i : ℕ) (answers : List (ℕ × Message F)) (id : Int)
    (keys : List Int) : List (ℕ × Message F) → List (ℕ × Message F) → Prop
  | requested (m : Message F) (request : RequestMessage F) (hm : m.sendId = ag.localId)
      (hrequest : m.requestMsg = some request) (hkeys : request.keys.Perm keys) :
      InFlight ag i answers id keys [(i, m)] []
  | answered (ks : List Int) (values : List F) (hkeys : ks.Perm keys)
      (hvalues : values.length = ks.length)
      (hanswer : (i, PullNet.answer id ag.localId ks values) ∈ answers) :
      InFlight ag i answers id keys [] [(i, PullNet.answer id ag.localId ks values)]

/-- How far pull `i` of the block `g` has got: the pairs received are those of the servers it no
longer waits for. -/
structure Progress (ag : Agent F) (i : ℕ) (g : Shmstruct F) (n : PullNet F)
    (w : Agent.Pulling F) : Prop where
  localId : w.agent.localId = ag.localId
  serverIds : w.agent.serverIds = ag.serverIds
  partition : w.agent.partition = ag.partition
  pullable : Pullable ag.partition g
  nodup : w.serverSet.Nodup
  cur_le : w.cur ≤ 100
  keys : (((w.agent.parameters.keys.zip w.agent.parameters.values).take w.cur).map Prod.fst).Perm
    (g.usedKeys.filter fun k ↦ decide (ownerOf ag k ∉ w.serverSet))
  values : ∀ e ∈ (w.agent.parameters.keys.zip w.agent.parameters.values).take w.cur,
    Answered ag n.answers i e
  waiting : ∀ id ∈ w.serverSet, InFlight ag i n.answers id
    (g.usedKeys.filter fun k ↦ decide (ownerOf ag k = id)) (n.requests id) (n.replies id)
  others : ∀ id, id ∉ w.serverSet → n.requests id = [] ∧ n.replies id = []

/-- Where the agent is in its sequence of pulls. -/
inductive Phase (ag : Agent F) (n : PullNet F) : Prop
  | idle (b : Agent F) (hb : n.agent = .idle b) (localId : b.localId = ag.localId)
      (serverIds : b.serverIds = ag.serverIds) (partition : b.partition = ag.partition)
      (hlen : n.results.length = n.pulls.length)
      (hempty : ∀ id, n.requests id = [] ∧ n.replies id = [])
  | pulling (w : Agent.Pulling F) (done : List (Shmstruct F)) (g : Shmstruct F)
      (hw : n.agent = .pulling w) (hpulls : n.pulls = done ++ [g])
      (hlen : n.results.length = done.length) (hprogress : Progress ag done.length g n w)

/-- Every pull so far has returned what was asked for, and the current one is on its way. -/
structure Inv (ag : Agent F) (n : PullNet F) : Prop where
  phase : Phase ag n
  returned : ∀ (i : ℕ) (g result : Shmstruct F), n.pulls[i]? = some g →
    n.results[i]? = some result → Returned ag n.answers i g result

/-! ## One step -/

section

variable {ag : Agent F} {keys ks : List Int} {i : ℕ} {id : Int}

/-- A server that owns no key is sent nothing. -/
theorem requestsFor_of_not_mem (hid : id ∉ ag.pullSet keys) :
    requestsFor i id ((ag.partition.slotsOf keys).map (ag.pullPart ks)) = [] := by
  rw [requestsFor, List.map_eq_nil_iff, List.filter_eq_nil_iff]
  intro m hm
  obtain ⟨s, hs, rfl⟩ := List.mem_map.1 hm
  obtain ⟨k, hk, rfl⟩ := Partition.mem_slotsOf.1 hs
  simp only [decide_eq_true_eq]
  exact fun h ↦ hid (Agent.mem_pullSet.2 ⟨k, hk, h⟩)

/-- When the last server does not own keys at both ends, a server that owns keys is sent one
request, for all of them. -/
theorem requestsFor_of_mem (hr : ag.CanRoute) (hend : ag.partition.OneEnd keys)
    (hks : ks.Perm keys) (hid : id ∈ ag.pullSet keys) :
    ∃ m request, requestsFor i id ((ag.partition.slotsOf keys).map (ag.pullPart ks)) = [(i, m)] ∧
      m.sendId = ag.localId ∧ m.requestMsg = some request ∧
      request.keys.Perm (keys.filter fun k ↦ decide (ownerOf ag k = id)) := by
  obtain ⟨k, hk, rfl⟩ := Agent.mem_pullSet.1 hid
  have hslot : ∀ k ∈ keys, ag.partition.slot k ∈ ag.partition.slotsOf keys := fun k hk ↦
    Partition.mem_slotsOf.2 ⟨k, hk, rfl⟩
  -- two slots with the same owner are the same
  have hunique : ∀ s ∈ ag.partition.slotsOf keys, ∀ u ∈ ag.partition.slotsOf keys,
      ag.partition.ownerId ag.serverIds s = ag.partition.ownerId ag.serverIds u → s = u := by
    intro s hs u hu h
    exact hend.slot_unique hr.ordered hs hu (Partition.serverOf_eq_of_ownerId_eq hr.length_ids
      hr.nodup_ids (Partition.le_of_mem_slotsOf hs) (Partition.le_of_mem_slotsOf hu) h)
  refine ⟨(ag.pullPart ks (ag.partition.slot k)).msg, _, ?_, rfl, rfl, ?_⟩
  · have hfilter := Sorted.filter_eq_singleton (ag.partition.nodup_slotsOf keys) (hslot k hk)
      (P := fun s ↦ decide (ag.partition.ownerId ag.serverIds s
        = ag.partition.ownerId ag.serverIds (ag.partition.slot k)))
      (by simp) fun s hs h ↦ hunique s hs _ (hslot k hk) (of_decide_eq_true h)
    rw [requestsFor, List.filter_map]
    exact congrArg (List.map _) (congrArg (List.map _) hfilter)
  · have hsame : (ks.filter fun j ↦ decide (ag.partition.slot j = ag.partition.slot k))
        = ks.filter fun j ↦ decide (ownerOf ag j
            = ag.partition.ownerId ag.serverIds (ag.partition.slot k)) := by
      refine List.filter_congr fun j hj ↦ decide_eq_decide.2 ⟨fun h ↦ ?_, fun h ↦ ?_⟩
      · rw [ownerOf, h]
      · exact hunique _ (hslot j (hks.mem_iff.1 hj)) _ (hslot k hk) h
    exact hsame ▸ hks.filter _

/-- Where a pull begins. -/
theorem Progress.start {n : PullNet F} {b : Agent F} {g : Shmstruct F} {w : Agent.Pulling F}
    {sent : List (Sent F)} (hr : ag.CanRoute) (hlocal : b.localId = ag.localId)
    (hids : b.serverIds = ag.serverIds) (hpartition : b.partition = ag.partition)
    (hempty : ∀ id, n.requests id = [] ∧ n.replies id = []) (hg : Pullable ag.partition g)
    (hend : ag.partition.OneEnd g.usedKeys) (hsend : b.workPull g = .ok (w, sent)) :
    Progress ag n.pulls.length g { n with
      agent := .pulling w
      requests := fun id ↦ n.requests id ++ requestsFor n.pulls.length id sent
      pulls := n.pulls ++ [g] } w := by
  have hset : ∀ keys, { b with parameters := g }.pullSet keys = ag.pullSet keys := by
    intro keys
    simp only [Agent.pullSet, hids, hpartition]
  have hpart : ∀ ks, { b with parameters := g }.pullPart ks = ag.pullPart ks := by
    intro ks
    funext s
    simp only [Agent.pullPart, hlocal, hids, hpartition]
  have hroute : { b with parameters := g }.CanRoute :=
    ⟨by rw [hpartition]; exact hr.ordered, by rw [hids, hpartition]; exact hr.length_ids,
      by rw [hids]; exact hr.nodup_ids⟩
  obtain ⟨g', hpull, hperm⟩ := Agent.sendPull_eq hroute hg.distinct.nonneg hg.distinct.le
    (by rw [hpartition]; exact hg.inRange)
  rw [Agent.workPull, hpull, hset, hpart] at hsend
  simp only [hpartition] at hsend hperm
  obtain ⟨rfl, rfl⟩ := Prod.mk.inj (Except.ok.inj hsend)
  refine {
    localId := hlocal
    serverIds := hids
    partition := rfl
    pullable := hg
    nodup := ag.nodup_pullSet _
    cur_le := Nat.zero_le _
    keys := ?_
    values := by simp
    waiting := fun id hid ↦ ?_
    others := fun id hid ↦ ?_ }
  · have hnone :
        (g.usedKeys.filter fun k ↦ decide (ownerOf ag k ∉ ag.pullSet g.usedKeys)) = [] := by
      refine List.filter_eq_nil_iff.2 fun k hk ↦ ?_
      simp only [decide_eq_true_eq, not_not]
      exact Agent.mem_pullSet.2 ⟨k, hk, rfl⟩
    show List.Perm [] (g.usedKeys.filter fun k ↦ decide (ownerOf ag k ∉ ag.pullSet g.usedKeys))
    rw [hnone]
  · obtain ⟨m, request, hone, hm, hrequest, hkeys⟩ :=
      requestsFor_of_mem (i := n.pulls.length) hr hend hperm hid
    simp only [(hempty id).1, (hempty id).2, List.nil_append, hone]
    exact .requested m request hm hrequest hkeys
  · simp only [(hempty id).1, (hempty id).2, List.nil_append, requestsFor_of_not_mem hid,
      and_self]

variable {n : PullNet F} {w w' : Agent.Pulling F} {g : Shmstruct F}
  {answers : List (ℕ × Message F)} {requests replies : List (ℕ × Message F)}

theorem InFlight.mono (h : InFlight ag i answers id keys requests replies) (a : ℕ × Message F) :
    InFlight ag i (answers ++ [a]) id keys requests replies := by
  cases h with
  | requested m request hm hrequest hkeys => exact .requested m request hm hrequest hkeys
  | answered ks values hkeys hvalues hanswer =>
    exact .answered ks values hkeys hvalues (List.mem_append_left _ hanswer)

/-- A server answers. -/
theorem Progress.answer (h : Progress ag i g n w) {j : ℕ} {m : Message F}
    {rest : List (ℕ × Message F)} {request : RequestMessage F} {values : List F}
    (hm : n.requests id = (j, m) :: rest) (hrequest : m.requestMsg = some request)
    (hvalues : values.length = request.keys.length) :
    Progress ag i g { n with
      requests := Function.update n.requests id rest
      replies := Function.update n.replies id
        (n.replies id ++ [(j, PullNet.answer id m.sendId request.keys values)])
      answers := n.answers ++ [(j, PullNet.answer id m.sendId request.keys values)] } w := by
  have hid : id ∈ w.serverSet := by
    by_contra hid
    rw [(h.others id hid).1] at hm
    simp at hm
  refine { h with
    values := fun e he ↦ (h.values e he).mono _
    waiting := fun id' hid' ↦ ?_
    others := fun id' hid' ↦ ?_ }
  · simp only [Function.update_apply]
    split
    · subst id'
      have hflight := h.waiting id hid
      rw [hm] at hflight
      generalize n.replies id = replies at hflight
      cases hflight with
      | requested _ request' hsend hrequest' hkeys =>
        obtain rfl := Option.some.inj (hrequest.symm.trans hrequest')
        rw [hsend]
        exact .answered _ values hkeys hvalues (by simp)
    · exact (h.waiting id' hid').mono _
  · have hne : id' ≠ id := fun heq ↦ hid' (heq ▸ hid)
    simpa [hne] using h.others id' hid'

/-- The keys of the servers no longer waited for, once one more has answered. -/
theorem filter_erase_perm {set : List Int} (hnd : set.Nodup) (hid : id ∈ set) (owner : Int → Int)
    (keys : List Int) :
    (keys.filter fun k ↦ decide (owner k ∉ set.erase id)).Perm
      ((keys.filter fun k ↦ decide (owner k ∉ set))
        ++ keys.filter fun k ↦ decide (owner k = id)) := by
  have hsplit := List.filter_append_perm (fun k ↦ decide (owner k ∉ set))
    (keys.filter fun k ↦ decide (owner k ∉ set.erase id))
  rw [List.filter_filter, List.filter_filter] at hsplit
  have hfirst : (keys.filter fun k ↦ decide (owner k ∉ set) && decide (owner k ∉ set.erase id))
      = keys.filter fun k ↦ decide (owner k ∉ set) := by
    refine List.filter_congr fun k _ ↦ ?_
    rw [← Bool.decide_and, decide_eq_decide, hnd.mem_erase_iff]
    tauto
  have hsecond : (keys.filter fun k ↦ !decide (owner k ∉ set) && decide (owner k ∉ set.erase id))
      = keys.filter fun k ↦ decide (owner k = id) := by
    refine List.filter_congr fun k _ ↦ ?_
    rw [← decide_not, ← Bool.decide_and, decide_eq_decide, hnd.mem_erase_iff]
    constructor
    · rintro ⟨hmem, hnot⟩
      by_contra hne
      exact hnot ⟨hne, not_not.1 hmem⟩
    · rintro rfl
      exact ⟨not_not.2 hid, fun h ↦ h.1 rfl⟩
  rw [hfirst, hsecond] at hsplit
  exact hsplit.symm

theorem Progress.length_usedKeys (h : Progress ag i g n w) :
    g.usedKeys.length = g.size.toNat := by
  rw [← g.map_fst_pairs, List.length_map, g.length_pairs h.pullable.distinct.le]

theorem Progress.length_received (h : Progress ag i g n w) :
    ((w.agent.parameters.keys.zip w.agent.parameters.values).take w.cur).length = w.cur := by
  have hle := h.cur_le
  rw [List.length_take, List.length_zip, w.agent.parameters.length_keys,
    w.agent.parameters.length_values]
  omega

/-- A pair out of the answer of the owner of its key. -/
theorem Progress.answered_of_mem (hr : ag.CanRoute) (h : Progress ag i g n w) {values : List F}
    (hkeys : ks.Perm (g.usedKeys.filter fun k ↦ decide (ownerOf ag k = id)))
    (hanswer : (i, PullNet.answer id ag.localId ks values) ∈ n.answers) {e : Int × F}
    (he : e ∈ ks.zip values) : Answered ag n.answers i e := by
  refine ⟨_, _, hanswer, rfl, he, ?_⟩
  have hmem : e.1 ∈ g.usedKeys.filter fun k ↦ decide (ownerOf ag k = id) :=
    hkeys.mem_iff.1 (List.of_mem_zip (show (e.1, e.2) ∈ ks.zip values from he)).1
  obtain ⟨hkey, howner⟩ := List.mem_filter.1 hmem
  rw [Partition.getServerByKey_eq hr.ordered (h.pullable.inRange e.1 hkey),
    Partition.get_ownerId hr.length_ids (ag.partition.slot_le e.1)]
  exact congrArg Except.ok (of_decide_eq_true howner)

/-- What comes back is the answer of a server that is waited for, and nothing behind it. -/
theorem Progress.answer_of_reply (h : Progress ag i g n w) {j : ℕ} {m : Message F}
    {rest : List (ℕ × Message F)} (hm : n.replies id = (j, m) :: rest) :
    id ∈ w.serverSet ∧ ∃ ks values,
      ks.Perm (g.usedKeys.filter fun k ↦ decide (ownerOf ag k = id)) ∧
      values.length = ks.length ∧ (i, PullNet.answer id ag.localId ks values) ∈ n.answers ∧
      n.requests id = [] ∧ m = PullNet.answer id ag.localId ks values ∧ rest = [] := by
  have hid : id ∈ w.serverSet := by
    by_contra hid
    rw [(h.others id hid).2] at hm
    simp at hm
  refine ⟨hid, ?_⟩
  have hflight := h.waiting id hid
  rw [hm] at hflight
  generalize n.requests id = requests at hflight ⊢
  cases hflight with
  | answered ks values hkeys hvalues hanswer =>
    exact ⟨ks, values, hkeys, hvalues, hanswer, rfl, rfl, rfl⟩

/-- All that has been received are keys of the block, so there is room for those of one more
server. -/
theorem Progress.room (h : Progress ag i g n w) (hid : id ∈ w.serverSet) {ks : List Int}
    (hkeys : ks.Perm (g.usedKeys.filter fun k ↦ decide (ownerOf ag k = id))) :
    w.cur + ks.length ≤ 100 := by
  have h1 := h.keys.length_eq
  rw [List.length_map, h.length_received] at h1
  have h2 := (filter_erase_perm h.nodup hid (ownerOf ag) g.usedKeys).length_eq
  rw [List.length_append, ← h1, ← hkeys.length_eq] at h2
  have h3 : (g.usedKeys.filter fun k ↦ decide (ownerOf ag k ∉ w.serverSet.erase id)).length
      ≤ g.usedKeys.length := List.length_filter_le _ _
  have h4 := h.length_usedKeys
  have h5 := h.pullable.distinct.le
  omega

/-- The agent takes an answer: it has room for it, and no longer waits for its sender. -/
theorem Progress.receive (hr : ag.CanRoute) (h : Progress ag i g n w) {j : ℕ} {m : Message F}
    {rest : List (ℕ × Message F)} (hm : n.replies id = (j, m) :: rest)
    (hreceive : w.receive (some m) = .ok w') :
    Progress ag i g { n with
      agent := .pulling w'
      replies := Function.update n.replies id rest } w' := by
  obtain ⟨hid, ks, values, hkeys, hvalues, hanswer, hrequests, rfl, rfl⟩ := h.answer_of_reply hm
  have herase := filter_erase_perm h.nodup hid (ownerOf ag) g.usedKeys
  have hroom : w.cur + (ks.zip values).length ≤ 100 := by
    rw [List.length_zip, hvalues, Nat.min_self]
    exact h.room hid hkeys
  have hcheck : w.check (PullNet.answer id ag.localId ks values)
      = some ⟨.keyValue, ks, values⟩ := by
    simp [Agent.Pulling.check, PullNet.answer, hid, h.localId]
  obtain ⟨g', hwrite, -, hpairs⟩ := w.agent.parameters.writePairs_ok _ _ hroom
  rw [Agent.Pulling.receive, hcheck] at hreceive
  simp only [Checked.zip_eq hvalues.ge, Checked.ok_bind, hwrite, Except.ok.injEq] at hreceive
  subst hreceive
  refine {
    localId := h.localId
    serverIds := h.serverIds
    partition := h.partition
    pullable := h.pullable
    nodup := h.nodup.erase id
    cur_le := hroom
    keys := ?_
    values := fun e he ↦ ?_
    waiting := fun id' hid' ↦ ?_
    others := fun id' hid' ↦ ?_ }
  · show (((g'.keys.zip g'.values).take (w.cur + (ks.zip values).length)).map Prod.fst).Perm _
    rw [hpairs, List.map_append, List.map_fst_zip hvalues.ge]
    exact (h.keys.append hkeys).trans herase.symm
  · replace he : e ∈ (g'.keys.zip g'.values).take (w.cur + (ks.zip values).length) := he
    rw [hpairs] at he
    rcases List.mem_append.1 he with he | he
    · exact h.values e he
    · exact h.answered_of_mem hr hkeys hanswer he
  · obtain ⟨hne, hmem⟩ := h.nodup.mem_erase_iff.1 hid'
    have hreplies : Function.update n.replies id [] id' = n.replies id' :=
      Function.update_of_ne hne _ _
    simp only [hreplies]
    exact h.waiting id' hmem
  · by_cases hne : id' = id
    · subst hne
      exact ⟨hrequests, Function.update_self ..⟩
    · simp only [Function.update_of_ne hne]
      exact h.others id' fun hmem ↦ hid' (h.nodup.mem_erase_iff.2 ⟨hne, hmem⟩)

/-- Nothing is waited for any more: the pull has what was asked for. -/
theorem Progress.returned (h : Progress ag i g n w) (hset : w.serverSet = []) :
    Returned ag n.answers i g w.finish.parameters := by
  have hall : (g.usedKeys.filter fun k ↦ decide (ownerOf ag k ∉ w.serverSet)) = g.usedKeys := by
    rw [hset]
    exact List.filter_eq_self.2 fun k _ ↦ by simp
  have hkeys := h.keys
  rw [hall] at hkeys
  have hlen := hkeys.length_eq
  rw [List.length_map, h.length_received, h.length_usedKeys] at hlen
  have hpairs : w.finish.parameters.pairs
      = (w.agent.parameters.keys.zip w.agent.parameters.values).take w.cur := by
    show (w.agent.parameters.keys.zip w.agent.parameters.values).take (Int.toNat w.cur) = _
    rw [Int.toNat_natCast]
  refine ⟨?_, ?_, fun e he ↦ h.values e (hpairs ▸ he)⟩
  · show (w.cur : Int) = g.size
    have hnonneg := h.pullable.distinct.nonneg
    omega
  · rw [← Shmstruct.map_fst_pairs, hpairs]
    exact hkeys

end

/-! ## Every run -/

section

variable {ag : Agent F} {n n' : PullNet F}

theorem inv_start (ag : Agent F) : Inv ag (start ag) :=
  ⟨.idle ag rfl rfl rfl rfl rfl fun _ ↦ ⟨rfl, rfl⟩, by simp [PullNet.start]⟩

theorem Returned.mono {answers : List (ℕ × Message F)} {i : ℕ} {g result : Shmstruct F}
    (h : Returned ag answers i g result) (a : ℕ × Message F) :
    Returned ag (answers ++ [a]) i g result :=
  ⟨h.size, h.keys, fun e he ↦ (h.values e he).mono a⟩

/-- A step keeps the invariant, as long as no pull has keys at both ends. -/
theorem Inv.step (hr : ag.CanRoute) (h : Inv ag n)
    (hstep : Step ag.partition ag.partition.OneEnd n n') : Inv ag n' := by
  cases hstep with
  | @pull b g w sent hidle hg hend hsend =>
    cases h.phase with
    | pulling w' done g' hw => rw [hidle] at hw; cases hw
    | idle b' hb hlocal hids hpartition hlen hempty =>
      rw [hidle] at hb
      cases hb
      refine ⟨.pulling w n.pulls g rfl rfl hlen
        (Progress.start hr hlocal hids hpartition hempty hg hend hsend), ?_⟩
      intro i g' result hi hresult
      have hlt := (List.getElem?_eq_some_iff.1 hresult).1
      rw [List.getElem?_append_left (hlen ▸ hlt)] at hi
      exact h.returned i g' result hi hresult
  | @answer id j m rest request values hm hrequest hvalues =>
    refine ⟨?_, fun i g result hi hresult ↦ (h.returned i g result hi hresult).mono _⟩
    cases h.phase with
    | idle b hb hlocal hids hpartition hlen hempty =>
      rw [(hempty id).1] at hm
      simp at hm
    | pulling w done g hw hpulls hlen hprogress =>
      exact .pulling w done g hw hpulls hlen (hprogress.answer hm hrequest hvalues)
  | @receive w w' id j m rest hw hset hm hreceive =>
    refine ⟨?_, h.returned⟩
    cases h.phase with
    | idle b hb => rw [hw] at hb; cases hb
    | pulling v done g hv hpulls hlen hprogress =>
      rw [hw] at hv
      cases hv
      exact .pulling w' done g rfl hpulls hlen (hprogress.receive hr hm hreceive)
  | @noise w w' m hw hset hcheck hreceive =>
    have hsame : w = w' := by
      cases m with
      | none => exact Except.ok.inj hreceive
      | some m =>
        rw [Agent.Pulling.receive, hcheck m rfl] at hreceive
        exact Except.ok.inj hreceive
    subst hsame
    refine ⟨?_, h.returned⟩
    cases h.phase with
    | idle b hb => rw [hw] at hb; cases hb
    | pulling v done g hv hpulls hlen hprogress =>
      rw [hw] at hv
      cases hv
      exact .pulling w done g rfl hpulls hlen { hprogress with }
  | @finish w hw hset =>
    cases h.phase with
    | idle b hb => rw [hw] at hb; cases hb
    | pulling v done g hv hpulls hlen hprogress =>
      rw [hw] at hv
      cases hv
      refine ⟨.idle w.finish rfl hprogress.localId hprogress.serverIds hprogress.partition ?_ ?_,
        ?_⟩
      · simp [hpulls, hlen]
      · intro id
        exact hprogress.others id (by simp [hset])
      · intro i g' result hi hresult
        rcases Nat.lt_or_ge i n.results.length with hlt | hge
        · rw [List.getElem?_append_left hlt] at hresult
          exact h.returned i g' result hi hresult
        · -- the pull that has just returned
          have hi' := (List.getElem?_eq_some_iff.1 hresult).1
          rw [List.length_append, List.length_singleton] at hi'
          obtain rfl : i = done.length := by omega
          rw [← hlen, List.getElem?_concat_length] at hresult
          rw [hpulls, List.getElem?_concat_length] at hi
          cases hresult
          cases hi
          exact hprogress.returned hset

theorem Inv.reachable (hr : ag.CanRoute)
    (h : Relation.ReflTransGen (Step ag.partition ag.partition.OneEnd) (start ag) n) :
    Inv ag n := by
  induction h with
  | refl => exact inv_start ag
  | tail _ hstep ih => exact ih.step hr hstep

variable {t : TaskConfig} {draw : ℕ → Int} {config : ConfigMessage}

/-- **A pull returns exactly what was asked for**, in every run in which no pull has keys at both
ends of the range of the last server: `parameters_` then holds the keys of the pull, each once,
with values that their owners sent in answer to this very pull. -/
theorem pull_returns {masterAddr : String} {recvId : Int} {gradients parameters : Shmstruct F}
    (hempty : t.partition = []) (hpos : 2 ≤ t.serverNum) (hdraw : t.DrawsOk draw)
    (hd : (t.generatePartition draw).Delivers config)
    (h₀ : Agent.initializeAgent masterAddr recvId config gradients parameters = .ok ag)
    (hn : Relation.ReflTransGen (Step ag.partition ag.partition.OneEnd) (start ag) n)
    {i : ℕ} {g result : Shmstruct F} (hg : n.pulls[i]? = some g)
    (hresult : n.results[i]? = some result) : Returned ag n.answers i g result :=
  (Inv.reachable (Agent.initializeAgent_canRoute hempty (by omega) hdraw hd h₀).1 hn).returned
    i g result hg hresult

open Agent (twoServers noPairs twoServers_drawsOk twoServers_delivers)

/-- A pull of the keys `70` and `65`, both at the upper end of the second server. -/
theorem pull_returns_twoServers :
    ∃ (ag : Agent Int) (n : PullNet Int) (g result : Shmstruct Int),
      Agent.initializeAgent "10.0.0.1:80" 3 twoServers noPairs noPairs = .ok ag ∧
      Relation.ReflTransGen (Step ag.partition ag.partition.OneEnd) (start ag) n ∧
      g.usedKeys = [70, 65] ∧ n.pulls = [g] ∧ n.results = [result] ∧
      Returned ag n.answers 0 g result := by
  obtain ⟨ag, w, sent, m, w', h₀, hrange, hfirst, hsend, hrequests, hm, hset, hreceive, hset'⟩ :
      ∃ (ag : Agent Int) (w : Agent.Pulling Int) (sent : List (Sent Int)) (m : Message Int)
        (w' : Agent.Pulling Int),
        Agent.initializeAgent "10.0.0.1:80" 3 twoServers noPairs noPairs = .ok ag ∧
        ag.partition.keyRange = 100 ∧ ag.partition.first = 30 ∧
        ag.workPull (.ofPairs 0 [(70, 0), (65, 0)] (by decide)) = .ok (w, sent) ∧
        requestsFor 0 2 sent = [(0, m)] ∧ m.requestMsg = some ⟨.key, [65, 70], []⟩ ∧
        w.serverSet = [2] ∧
        w.receive (some (PullNet.answer 2 m.sendId [65, 70] [6, 7])) = .ok w' ∧
        w'.serverSet = [] :=
    ⟨_, _, _, _, _, rfl, rfl, rfl, rfl, rfl, rfl, rfl, rfl, rfl⟩
  have hg : Pullable ag.partition (.ofPairs (0 : Int) [(70, 0), (65, 0)] (by decide)) :=
    ⟨⟨by decide, by decide, by decide⟩, by simp [Partition.InRange, hrange]⟩
  have hend : ag.partition.OneEnd (Shmstruct.ofPairs (0 : Int) [(70, 0), (65, 0)]
      (by decide)).usedKeys := by
    simp [Partition.OneEnd, hfirst]
  have hn := Relation.ReflTransGen.refl (r := Step ag.partition ag.partition.OneEnd)
      (a := start ag)
    |>.tail (Step.pull rfl hg hend hsend)
    |>.tail (Step.answer ((List.nil_append _).trans hrequests) hm
      (show [(6 : Int), 7].length = _ from rfl))
    |>.tail (@Step.receive _ _ _ _ w w' 2 0 _ [] rfl (by simp [hset]) rfl hreceive)
    |>.tail (Step.finish rfl hset')
  have hreturned := pull_returns (t := TaskConfig.hundredKeys 2) (i := 0) rfl (by decide)
    twoServers_drawsOk twoServers_delivers h₀ hn rfl rfl
  exact ⟨ag, _, _, _, h₀, hn, rfl, rfl, rfl, hreturned⟩

/-- A pull of the keys `10` and `70`, both of the second server: it is sent two requests, and the
pull returns with the answer to the first. -/
theorem pull_returns_half :
    ∃ (ag : Agent Int) (n : PullNet Int) (g result : Shmstruct Int),
      Agent.initializeAgent "10.0.0.1:80" 3 twoServers noPairs noPairs = .ok ag ∧
      Relation.ReflTransGen (Step ag.partition fun _ ↦ True) (start ag) n ∧
      g.usedKeys = [10, 70] ∧ n.pulls = [g] ∧ n.results = [result] ∧ result.usedKeys = [10] ∧
      ¬ Returned ag n.answers 0 g result := by
  obtain ⟨ag, w, sent, m, m', w', h₀, hrange, hsend, hrequests, hm, hset, hreceive, hset', hsize,
      hresult⟩ :
      ∃ (ag : Agent Int) (w : Agent.Pulling Int) (sent : List (Sent Int)) (m m' : Message Int)
        (w' : Agent.Pulling Int),
        Agent.initializeAgent "10.0.0.1:80" 3 twoServers noPairs noPairs = .ok ag ∧
        ag.partition.keyRange = 100 ∧
        ag.workPull (.ofPairs 0 [(10, 0), (70, 0)] (by decide)) = .ok (w, sent) ∧
        requestsFor 0 2 sent = [(0, m), (0, m')] ∧ m.requestMsg = some ⟨.key, [10], []⟩ ∧
        w.serverSet = [2] ∧
        w.receive (some (PullNet.answer 2 m.sendId [10] [5])) = .ok w' ∧ w'.serverSet = [] ∧
        w'.finish.parameters.size = 1 ∧ w'.finish.parameters.usedKeys = [10] :=
    ⟨_, _, _, _, _, _, rfl, rfl, rfl, rfl, rfl, rfl, rfl, rfl, rfl, rfl⟩
  have hg : Pullable ag.partition (.ofPairs (0 : Int) [(10, 0), (70, 0)] (by decide)) :=
    ⟨⟨by decide, by decide, by decide⟩, by simp [Partition.InRange, hrange]⟩
  have hn := Relation.ReflTransGen.refl (r := Step ag.partition fun _ ↦ True) (a := start ag)
    |>.tail (Step.pull rfl hg trivial hsend)
    |>.tail (Step.answer ((List.nil_append _).trans hrequests) hm
      (show [(5 : Int)].length = _ from rfl))
    |>.tail (@Step.receive _ _ _ _ w w' 2 0 _ [] rfl (by simp [hset]) rfl hreceive)
    |>.tail (Step.finish rfl hset')
  refine ⟨ag, _, _, _, h₀, hn, rfl, rfl, rfl, hresult, fun h ↦ ?_⟩
  have hsize' := h.size
  rw [hsize] at hsize'
  exact absurd hsize' (by decide)

end

end PullNet

end Rpscc
