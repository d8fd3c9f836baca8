import Rpscc.Server.Serve

/-!
# What a request can do, whatever its keys

The keys of a request decide whether serving it reads outside a container; if it does not, what it
does to the server otherwise has nothing to do with them.  Here are the handlers taken apart, one
lemma a function: `storePush_cases` and `finishRound_cases` for a push, `servePull_branches` for a
pull, with `servePull_cases` for what it changes.  `serve_served` sums up what concerns the other
servers: the place of the server among them does not change, its parameters change only when a round
is complete, and then it asks for backups.
-/

set_option autoImplicit false

namespace Rpscc

namespace Server

variable {F : Type} {s s' : Server F}

/-! ## Pulls -/

theorem respondToAll_cases {sent : List (Sent F)} (h : s.respondToAll = .ok (s', sent)) :
    s' = { s with pullRequest := [] } ∧ ∀ e ∈ sent, ∃ p ∈ s.pullRequest, e.dst = p.id := by
  rw [respondToAll, Checked.bind_eq_ok] at h
  obtain ⟨msgs, hmsgs, h⟩ := h
  cases h
  refine ⟨rfl, fun e he ↦ ?_⟩
  obtain ⟨p, hp, hreply⟩ := Checked.mem_of_mapM_ok hmsgs e he
  rw [Checked.bind_eq_ok] at hreply
  obtain ⟨values, -, hreply⟩ := hreply
  cases hreply
  exact ⟨p, hp, rfl⟩

/-- The branches of `ServePull`: the agent is unknown, or it is known and its pull is blocked or
answered. -/
theorem servePull_branches {senderId : Int} {request : RequestMessage F} {r : Response F}
    (h : s.servePull senderId request = .ok (s', r)) :
    (s.idToIndex senderId = none ∧ s' = s ∧ r = ⟨.unknown, []⟩) ∨
      ∃ i buffer, s.idToIndex senderId = some i ∧ Checked.get s.versionBuffer i = .ok buffer ∧
        ((sizeAtLeast buffer.length s.consistencyBound = true ∧
            s' = { s with pullRequest := s.pullRequest ++ [⟨senderId, request.keys⟩] } ∧
            r = ⟨.blocked, []⟩) ∨
          (sizeAtLeast buffer.length s.consistencyBound = false ∧
            ∃ values, s.pullValues request.keys = .ok values ∧ s' = s ∧
              r = ⟨.answered, [s.reply senderId request.keys values]⟩)) := by
  rw [servePull] at h
  split at h
  · rename_i hindex
    cases h
    exact .inl ⟨hindex, rfl, rfl⟩
  · rename_i i hindex
    rw [Checked.bind_eq_ok] at h
    obtain ⟨buffer, hbuffer, h⟩ := h
    refine .inr ⟨i, buffer, hindex, hbuffer, ?_⟩
    split at h
    · rename_i hfull
      cases h
      exact .inl ⟨hfull, rfl, rfl⟩
    · rename_i hroom
      rw [Checked.bind_eq_ok] at h
      obtain ⟨values, hvalues, h⟩ := h
      cases h
      exact .inr ⟨Bool.eq_false_iff.2 hroom, values, hvalues, rfl, rfl⟩

theorem servePull_cases {senderId : Int} {request : RequestMessage F} {r : Response F}
    (h : s.servePull senderId request = .ok (s', r)) :
    (s' = s ∧ ∀ e ∈ r.sent, e.dst = senderId) ∨
      s' = { s with pullRequest := s.pullRequest ++ [⟨senderId, request.keys⟩] } ∧ r.sent = [] := by
  obtain ⟨-, rfl, rfl⟩ | ⟨i, buffer, -, -, ⟨-, rfl, rfl⟩ | ⟨-, values, -, rfl, rfl⟩⟩ :=
    servePull_branches h
  · exact .inl ⟨rfl, fun e he ↦ absurd he List.not_mem_nil⟩
  · exact .inr ⟨rfl, rfl⟩
  · exact .inl ⟨rfl, fun e he ↦ by rw [List.mem_singleton.1 he]; rfl⟩

/-! ## Pushes -/

/-- A push of an agent that has a buffer is stored there, or found one too many. -/
theorem storePush_cases {senderId : Int} {request : RequestMessage F} {o : Outcome} {i : Int}
    (hi : s.idToIndex senderId = some i) (h : s.storePush senderId request = .ok (s', o)) :
    s' = s ∨ ∃ buffer count update, Checked.get s.versionBuffer i = .ok buffer ∧
      sizeAtLeast buffer.length s.consistencyBound = false ∧
      Checked.get s.finishCount buffer.length = .ok count ∧
      s' = { s with
        finishCount := s.finishCount.set buffer.length (count + 1)
        versionBuffer := s.versionBuffer.set i.toNat (buffer ++ [update]) } := by
  have hindex : s.indexOf senderId = (s, i) := by
    rw [indexOf, hi]
  rw [storePush, hindex] at h
  dsimp only at h
  rw [Checked.bind_eq_ok] at h
  obtain ⟨buffer, hbuffer, h⟩ := h
  split at h
  · cases h
    exact .inl rfl
  · rename_i hfull
    rw [Checked.bind_eq_ok] at h
    obtain ⟨count, hcount, h⟩ := h
    rw [Checked.bind_eq_ok] at h
    obtain ⟨update, -, h⟩ := h
    cases h
    exact .inr ⟨buffer, count, update, hbuffer, Bool.eq_false_iff.2 hfull, hcount, rfl⟩

/-- Whoever it is from, a push touches only the buffers and their counts. -/
theorem storePush_frame {senderId : Int} {request : RequestMessage F} {o : Outcome}
    (h : s.storePush senderId request = .ok (s', o)) : ∃ finishCount versionBuffer idToIndex,
      s' = { s with
        finishCount := finishCount
        versionBuffer := versionBuffer
        idToIndex := idToIndex } := by
  have hindex : ∃ idToIndex, (s.indexOf senderId).1 = { s with idToIndex := idToIndex } := by
    rw [indexOf]
    split
    · exact ⟨s.idToIndex, rfl⟩
    · exact ⟨_, rfl⟩
  obtain ⟨idToIndex, hindex⟩ := hindex
  rw [storePush] at h
  dsimp only at h
  rw [Checked.bind_eq_ok] at h
  obtain ⟨buffer, -, h⟩ := h
  split at h
  · cases h
    exact ⟨s.finishCount, s.versionBuffer, idToIndex, hindex⟩
  · rw [Checked.bind_eq_ok] at h
    obtain ⟨count, -, h⟩ := h
    rw [Checked.bind_eq_ok] at h
    obtain ⟨update, -, h⟩ := h
    cases h
    rw [hindex]
    exact ⟨_, _, idToIndex, rfl⟩

variable [FloatOps F]

/-- The parameters keep their number. -/
theorem length_addUpdate {agentNum : Int} : ∀ {parameters update r : List F},
    addUpdate agentNum parameters update = .ok r → r.length = parameters.length
  | parameters, [], r, h => by
    rw [addUpdate] at h
    cases h
    rfl
  | [], y :: update, r, h => by
    rw [addUpdate] at h
    simp at h
  | x :: parameters, y :: update, r, h => by
    rw [addUpdate, Checked.bind_eq_ok] at h
    obtain ⟨rest, hrest, h⟩ := h
    cases h
    rw [List.length_cons, List.length_cons, length_addUpdate hrest]

/-- Each of the first `n` buffers loses its front. -/
theorem takeFronts_fst {startKey : Int} : ∀ {n : ℕ} {buffers : List (List (KeyValueList F))}
    {update : List F} {r : List (List (KeyValueList F)) × List F},
    takeFronts startKey n buffers update = .ok r →
      r.1 = (buffers.take n).map List.tail ++ buffers.drop n
  | 0, buffers, update, r, h => by
    rw [takeFronts] at h
    cases h
    rfl
  | n + 1, [], update, r, h => by
    rw [takeFronts] at h
    simp at h
  | n + 1, [] :: buffers, update, r, h => by
    rw [takeFronts] at h
    simp at h
  | n + 1, (front :: rest) :: buffers, update, r, h => by
    rw [takeFronts, Checked.bind_eq_ok] at h
    obtain ⟨update', -, h⟩ := h
    rw [Checked.bind_eq_ok] at h
    obtain ⟨r', hr', h⟩ := h
    cases h
    rw [List.take_succ_cons, List.map_cons, List.tail_cons, List.drop_succ_cons, List.cons_append,
      takeFronts_fst hr']

/-- The server after a round, whatever the parameters have become. -/
def roundDone (s : Server F) (parameters : List F) : Server F :=
  { s with
    finishCount := s.finishCount.tail ++ [0]
    versionBuffer := (s.versionBuffer.take s.agentNum.toNat).map List.tail
      ++ s.versionBuffer.drop s.agentNum.toNat
    parameters := parameters
    bottomVersion := s.bottomVersion + 1
    pullRequest := [] }

/-- Either the bottom version is not complete, or it is merged. -/
theorem finishRound_cases {sent : List (Sent F)} (h : s.finishRound = .ok (s', sent)) :
    ∃ count, Checked.get s.finishCount 0 = .ok count ∧
      ((count ≠ s.agentNum ∧ s' = s ∧ sent = []) ∨
        count = s.agentNum ∧ ∃ parameters msgs backup, s' = s.roundDone parameters ∧
          parameters.length = s.parameters.length ∧ sent = msgs ++ backup ∧
          (∀ e ∈ msgs, ∃ p ∈ s.pullRequest, e.dst = p.id) ∧ s.requestBackup = .ok backup) := by
  rw [finishRound, Checked.bind_eq_ok] at h
  obtain ⟨count, hcount, h⟩ := h
  refine ⟨count, hcount, ?_⟩
  split at h
  · rename_i heq
    rw [Checked.bind_eq_ok] at h
    obtain ⟨s₁, hs₁, h⟩ := h
    rw [Checked.bind_eq_ok] at h
    obtain ⟨⟨s₂, msgs⟩, hs₂, h⟩ := h
    rw [Checked.bind_eq_ok] at h
    obtain ⟨backup, hbackup, h⟩ := h
    cases h
    rw [updateParameter, Checked.bind_eq_ok] at hs₁
    obtain ⟨r, hr, hs₁⟩ := hs₁
    rw [Checked.bind_eq_ok] at hs₁
    obtain ⟨parameters, hparameters, hs₁⟩ := hs₁
    cases hs₁
    obtain ⟨rfl, hmsgs⟩ := respondToAll_cases hs₂
    refine .inr
      ⟨heq, parameters, msgs, backup, ?_, length_addUpdate hparameters, rfl, hmsgs, hbackup⟩
    rw [roundDone, ← takeFronts_fst hr]
  · rename_i hne
    cases h
    exact .inl ⟨hne, rfl, rfl⟩

/-! ## The place among the servers -/

/-- The two servers are in the same place. -/
structure SamePlace (s s' : Server F) : Prop where
  localId : s'.localId = s.localId
  localIndex : s'.localIndex = s.localIndex
  serverNum : s'.serverNum = s.serverNum
  serverIds : s'.serverIds = s.serverIds
  servers : s'.servers = s.servers
  backupSize : s'.backupSize = s.backupSize
  parameterLength : s'.parameterLength = s.parameterLength

/-- What the other servers notice of a request that is served. -/
structure Served (senderId : Int) (s s' : Server F) (sent : List (Sent F)) : Prop where
  place : SamePlace s s'
  backups : s'.backupParameters = s.backupParameters
  length : s'.parameters.length = s.parameters.length
  version : (s'.bottomVersion = s.bottomVersion ∧ s'.parameters = s.parameters) ∨
    s'.bottomVersion = s.bottomVersion + 1
  pulls : ∀ p ∈ s'.pullRequest, p ∈ s.pullRequest ∨ p.id = senderId
  sent : ∀ e ∈ sent, e.dst = senderId ∨ (∃ p ∈ s.pullRequest, e.dst = p.id) ∨
    ∃ backup, s.requestBackup = .ok backup ∧ e ∈ backup

omit [FloatOps F] in
theorem SamePlace.refl (s : Server F) : SamePlace s s :=
  ⟨rfl, rfl, rfl, rfl, rfl, rfl, rfl⟩

omit [FloatOps F] in
theorem servePull_served {senderId : Int} {request : RequestMessage F} {r : Response F}
    (h : s.servePull senderId request = .ok (s', r)) : Served senderId s s' r.sent := by
  obtain ⟨rfl, hsent⟩ | ⟨rfl, hsent⟩ := servePull_cases h
  · exact ⟨.refl s', rfl, rfl, .inl ⟨rfl, rfl⟩, fun p hp ↦ .inl hp, fun e he ↦ .inl (hsent e he)⟩
  · refine ⟨⟨rfl, rfl, rfl, rfl, rfl, rfl, rfl⟩, rfl, rfl, .inl ⟨rfl, rfl⟩, fun p hp ↦ ?_,
      fun e he ↦ ?_⟩
    · rcases List.mem_append.1 hp with hp | hp
      · exact .inl hp
      · exact .inr (by rw [List.mem_singleton.1 hp])
    · rw [hsent] at he
      exact absurd he List.not_mem_nil

theorem servePush_served {senderId : Int} {request : RequestMessage F} {r : Response F}
    (h : s.servePush senderId request = .ok (s', r)) : Served senderId s s' r.sent := by
  rw [servePush] at h
  split at h
  · cases h
    exact ⟨.refl s, rfl, rfl, .inl ⟨rfl, rfl⟩, fun p hp ↦ .inl hp,
      fun e he ↦ absurd he List.not_mem_nil⟩
  · rw [Checked.bind_eq_ok] at h
    obtain ⟨⟨s₁, o⟩, hstore, h⟩ := h
    rw [Checked.bind_eq_ok] at h
    obtain ⟨⟨s₂, sent⟩, hfinish, h⟩ := h
    cases h
    obtain ⟨counts, buffers, index, rfl⟩ := storePush_frame hstore
    obtain ⟨count, -,
      ⟨-, rfl, rfl⟩ | ⟨-, parameters, msgs, backup, rfl, hlen, rfl, hmsgs, hbackup⟩⟩ :=
      finishRound_cases hfinish
    · exact ⟨⟨rfl, rfl, rfl, rfl, rfl, rfl, rfl⟩, rfl, rfl, .inl ⟨rfl, rfl⟩, fun p hp ↦ .inl hp,
        fun e he ↦ absurd he List.not_mem_nil⟩
    · refine ⟨⟨rfl, rfl, rfl, rfl, rfl, rfl, rfl⟩, rfl, hlen, .inr rfl,
        fun p hp ↦ absurd hp List.not_mem_nil, fun e he ↦ ?_⟩
      rcases List.mem_append.1 he with he | he
      · exact .inr (.inl (hmsgs e he))
      · exact .inr (.inr ⟨backup, hbackup, he⟩)

/-- The agent a request comes from. -/
def Call.senderId : Call F → Int
  | .push senderId _ => senderId
  | .pull senderId _ => senderId

theorem serve_served {c : Call F} {r : Response F} (h : s.serve c = .ok (s', r)) :
    Served c.senderId s s' r.sent := by
  cases c with
  | push senderId request => exact servePush_served h
  | pull senderId request => exact servePull_served h

end Server

end Rpscc
