import Rpscc.Lib.Circle
import Rpscc.Server.Ranges
import Rpscc.Server.Requests

/-!
# Backups and reconfiguration

A server keeps copies of the parameters of the `backup_size_` servers before it.  After every round
it asks for them (`requestBackup`), is answered (`respondBackup`) and stores the answer (`backup`);
`backup_respondBackup` says that the answer of the server `t + 1` places before ends up in place
`t`.

When the master has taken a server out, the others are sent a new configuration.  `reconfigure`
takes over the new range, forgets the agents that are gone, and calls `extendParameter`: as long as
there are not as many parameters as the range is long, the next backup is put *in front* of them.
`reconfigure_ok` says what this comes to when the new range fits, all the agents are still there
and no pull is blocked.
-/

set_option autoImplicit false

namespace Rpscc

namespace Server

variable {F : Type}

/-! ## Backups -/

/-- `Server::RespondBackup`. -/
def respondBackup (s : Server F) (serverId : Int) : Except Fault (Sent F) := do
  let values ← (List.range s.parameterLength.toNat).mapM fun (i : ℕ) ↦ Checked.get s.parameters i
  .ok ⟨serverId, { sendId := s.localId, recvId := serverId, messageType := .request,
                   requestMsg := some ⟨.keyValue,
                     (List.range s.parameterLength.toNat).map fun (i : ℕ) ↦ s.startKey + i,
                     values⟩ }⟩

/-- `servers_[id]`: an id that is not in the map is put there with index `0`. -/
def placeOf (s : Server F) (id : Int) : Server F × Int :=
  match s.servers id with
  | some i => (s, i)
  | none => ({ s with servers := Function.update s.servers id (some 0) }, 0)

/-- `Server::Backup`. -/
def backup (s : Server F) (m : Message F) : Except Fault (Server F) := do
  let r := s.placeOf m.sendId
  let serverIndex ← Checked.tmod (r.1.localIndex - 1 - r.2 + r.1.serverNum) r.1.serverNum
  let request := m.requestMsg.getD ⟨.keyValue, [], []⟩
  let _ ← Checked.get r.1.backupParameters serverIndex
  .ok { r.1 with backupParameters := r.1.backupParameters.set serverIndex.toNat request.values }

/-! ## `Server::Reconfigure` -/

/-- One pass of the loop of `ExtendParameter`.  Once the length is right it stays right, so that
nothing happens after the `break`. -/
def extendWith (parameterLength : Int) (backupParameters : List (List F)) (parameters : List F)
    (i : ℕ) : Except Fault (List F) :=
  if (parameters.length : Int) = parameterLength then .ok parameters
  else do
    let values ← Checked.get backupParameters i
    .ok (values ++ parameters)

/-- `Server::ExtendParameter`. -/
def extendParameter (s : Server F) : Except Fault (Server F) := do
  let parameters ← (List.range s.backupSize.toNat).foldlM
    (extendWith s.parameterLength s.backupParameters) s.parameters
  .ok { s with parameters := parameters }

/-- The loop that brings the addresses up to date. -/
def refreshAddresses (c : Communicator) (nodeIpPort : List String) : Communicator :=
  nodeIpPort.zipIdx.foldl (fun c p ↦
    if c.checkIdAddr p.2 p.1 then c else (c.deleteId p.2).addIdAddr p.2 p.1) c

/-- Forget the updates of an agent that is not in the new configuration. -/
def dropAgent (config : ConfigMessage) (s : Server F) (id : Int) : Except Fault (Server F) :=
  if id ∈ config.workerId then .ok s
  else do
    let r := s.indexOf id
    let buffer ← Checked.get r.1.versionBuffer r.2
    if r.1.finishCount.length < buffer.length then .error .outOfRange
    else
      .ok { r.1 with
        finishCount := (r.1.finishCount.take buffer.length).map (· - 1)
          ++ r.1.finishCount.drop buffer.length
        versionBuffer := r.1.versionBuffer.set r.2.toNat []
        idToIndex := Function.update r.1.idToIndex id none }

/-- Give worker `i` of the new configuration a version buffer, unless it has one. -/
def addAgent (config : ConfigMessage) (s : Server F) (i : ℕ) : Except Fault (Server F) := do
  let id ← Checked.get config.workerId i
  match s.idToIndex id with
  | some _ => .ok s
  | none => .ok { s with
      idToIndex := Function.update s.idToIndex id (some s.versionBuffer.length)
      versionBuffer := s.versionBuffer ++ [[]] }

/-- The agents of the new configuration.  The loop that adds them runs to the old number of
agents. -/
def refreshAgents (s : Server F) (config : ConfigMessage) : Except Fault (Server F) := do
  let s ← s.agentIds.foldlM (dropAgent config) s
  let s := { s with agentIds := config.workerId.foldl (fun ids id ↦ ids.insert id) [] }
  (List.range s.agentNum.toNat).foldlM (addAgent config) s

/-- The loop over the servers leaves the backups alone here. -/
def keepBackups (_ : ℕ) (backupParameters : List (List F)) : Except Fault (List (List F)) :=
  .ok backupParameters

/-- The numbers of the new configuration, and what the loop over its servers has found. -/
def relocate (s : Server F) (config : ConfigMessage) (l : Layout F) : Server F :=
  { s.withLayout l with
    serverNum := config.serverNum
    keyRange := config.keyRange }

/-- The addresses and the masters of the new configuration. -/
def readdress (s : Server F) (config : ConfigMessage) : Server F :=
  { s with
    sender := refreshAddresses s.sender config.nodeIpPort
    masterIds := config.masterId }

/-- `Server::Reconfigure`. -/
def reconfigure (s : Server F) (config : ConfigMessage) :
    Except Fault (Server F × List (Sent F)) := do
  let r ← s.respondToAll
  let s := r.1
  let l ← Layout.visitServers config s.localId keepBackups
    ⟨[], fun _ ↦ none, s.localIndex, s.startKey, s.parameterLength, s.backupParameters, false⟩
  let s := s.relocate config l
  if l.foundLocal = false then
    .ok (s, r.2)
  else
    let s ← (s.readdress config).refreshAgents config
    let s ← s.extendParameter
    .ok ({ s with agentNum := config.workerNum }, r.2)

/-! ## What they come to -/

/-- A server answers with all its parameters. -/
theorem respondBackup_eq {s : Server F} (hlen : s.parameters.length = s.parameterLength.toNat)
    (serverId : Int) : s.respondBackup serverId
      = .ok ⟨serverId, { sendId := s.localId, recvId := serverId, messageType := .request,
                         requestMsg := some ⟨.keyValue,
                           (List.range s.parameterLength.toNat).map fun (i : ℕ) ↦ s.startKey + i,
                           s.parameters⟩ }⟩ := by
  have hvalues : ((List.range s.parameterLength.toNat).mapM fun (k : ℕ) ↦
      Checked.get s.parameters k) = .ok s.parameters := by
    rw [← hlen]
    have hget : ∀ k ∈ List.range s.parameters.length, ∃ x,
        Checked.get s.parameters k = .ok x ∧ s.parameters[k]? = some x := by
      intro k hk
      have hk' := List.getElem?_eq_getElem (List.mem_range.1 hk)
      exact ⟨_, Checked.get_natCast hk', hk'⟩
    rw [Checked.mapM_ok_filterMap hget, Lists.filterMap_range_getElem?]
  rw [respondBackup, hvalues, Checked.ok_bind]

/-- **A backup ends up in its place**: what the server `t + 1` places before answers is stored as
backup `t`. -/
theorem backup_respondBackup {s target : Server F} {i u t : ℕ} (hindex : s.localIndex = i)
    (hplace : s.servers target.localId = some (u : Int)) (hu : (u : Int) < s.serverNum)
    (ht : (t : Int) < s.serverNum)
    (hback : ((u + (t + 1)) : Int) % s.serverNum = i) (hroom : t < s.backupParameters.length)
    (hlen : target.parameters.length = target.parameterLength.toNat) :
    ∃ m, target.respondBackup s.localId = .ok m ∧ m.dst = s.localId ∧
      s.backup m.msg
        = .ok { s with backupParameters := s.backupParameters.set t target.parameters } := by
  have hmod : (s.localIndex - 1 - u + s.serverNum) % s.serverNum = t := by
    rw [hindex]
    rcases lt_or_ge ((u : Int) + (t + 1)) s.serverNum with hlt | hge
    · rw [Int.emod_eq_of_lt (by omega) hlt] at hback
      rw [show (i : Int) - 1 - u + s.serverNum = t + s.serverNum by omega, Int.add_emod_right,
        Int.emod_eq_of_lt (by omega) ht]
    · rw [← Int.sub_emod_right, Int.emod_eq_of_lt (by omega) (by omega)] at hback
      rw [show (i : Int) - 1 - u + s.serverNum = t by omega, Int.emod_eq_of_lt (by omega) ht]
  have hnonneg : 0 ≤ s.localIndex - 1 - u + s.serverNum := by omega
  refine ⟨_, respondBackup_eq hlen s.localId, rfl, ?_⟩
  have hplaceOf : s.placeOf target.localId = (s, (u : Int)) := by
    rw [placeOf, hplace]
  rw [backup]
  simp only [hplaceOf, Checked.tmod_of_nonneg hnonneg (show s.serverNum ≠ 0 by omega), hmod,
    Checked.ok_bind, Checked.get_natCast (List.getElem?_eq_getElem hroom), Int.toNat_natCast]
  rfl

/-- Nothing is put in front of parameters that fit. -/
theorem extendParameter_eq_self {s : Server F}
    (h : (s.parameters.length : Int) = s.parameterLength) :
    s.extendParameter = .ok s := by
  have hloop : (List.range s.backupSize.toNat).foldlM
      (extendWith s.parameterLength s.backupParameters) s.parameters = .ok s.parameters := by
    refine Checked.foldlM_eq_self fun i _ ↦ ?_
    rw [extendWith, if_pos h]
  rw [extendParameter, hloop, Checked.ok_bind]

/-- What is put in front when the backups are not used up. -/
theorem extendParameter_eq {s : Server F} (h : s.backupSize.toNat ≤ s.backupParameters.length) :
    s.extendParameter = .ok { s with
      parameters := Circle.splice s.parameterLength
        (s.backupParameters.take s.backupSize.toNat) s.parameters } := by
  have hbody : ∀ i < s.backupSize.toNat, ∀ ps : List F,
      ps = Circle.splice s.parameterLength (s.backupParameters.take i) s.parameters →
      ∃ z, extendWith s.parameterLength s.backupParameters ps i = .ok z ∧
        z = Circle.splice s.parameterLength (s.backupParameters.take (i + 1)) s.parameters := by
    intro i hi ps hps
    have hi' : i < s.backupParameters.length := by omega
    refine ⟨_, ?_, rfl⟩
    rw [extendWith, Checked.get_natCast (List.getElem?_eq_getElem hi'), Checked.ok_bind,
      List.take_succ_eq_append_getElem hi', Circle.splice_concat, ← hps]
    split <;> rfl
  obtain ⟨r, hr, heq⟩ := Checked.foldlM_range_ok (P := fun m (ps : List F) ↦
    ps = Circle.splice s.parameterLength (s.backupParameters.take m) s.parameters)
    (show s.parameters = _ from rfl) hbody
  rw [extendParameter, hr, Checked.ok_bind, heq]

variable {config : ConfigMessage} {s : Server F}

theorem visitServers_backupParameters {localId : Int} {l r : Layout F}
    (h : Layout.visitServers config localId keepBackups l = .ok r) :
    r.backupParameters = l.backupParameters := by
  refine Checked.foldlM_range_inv (P := fun _ (x : Layout F) ↦
    x.backupParameters = l.backupParameters) rfl ?_ h
  intro i _ y z hy hz
  rw [Layout.visitServer, Checked.bind_eq_ok] at hz
  obtain ⟨id, -, hz⟩ := hz
  split at hz
  · rw [Checked.bind_eq_ok] at hz
    obtain ⟨range, -, hz⟩ := hz
    cases hz
    exact hy
  · cases hz
    exact hy

/-- `Reconfigure` of a server that the new configuration lists: the loop over the servers finds its
range, which fits, and leaves its backups. -/
theorem reconfigure_eq (hr : config.RangesOk) {i : ℕ} (hi : i < config.serverId.length)
    (hfits : config.RangeFits i) (hlocal : s.localId = config.serverId[i]) :
    ∃ l : Layout F, l.startKey = config.startOf i ∧ l.parameterLength = config.lengthOf i ∧
      l.backupParameters = s.backupParameters ∧
      s.reconfigure config = (do
        let r ← s.respondToAll
        let t ← ((r.1.relocate config l).readdress config).refreshAgents config
        let t ← t.extendParameter
        .ok ({ t with agentNum := config.workerNum }, r.2)) := by
  have hkeep : ∀ backup : List (List F), ∃ r, keepBackups i backup = .ok r := fun backup ↦
    ⟨backup, rfl⟩
  obtain ⟨l, hl, hv⟩ := visitServers_ok hr hi hfits hkeep (l := ⟨[], fun _ ↦ none, s.localIndex,
    s.startKey, s.parameterLength, s.backupParameters, false⟩) rfl rfl
  rw [← hlocal] at hl
  have hfound : ¬ l.foundLocal = false := by
    rw [hv.foundLocal, decide_eq_true hi]
    simp
  obtain ⟨-, -, hstart, hlength⟩ := hv.local_eq hi
  refine ⟨l, hstart, hlength, visitServers_backupParameters hl, ?_⟩
  rw [reconfigure]
  cases hrespond : s.respondToAll with
  | error e => rfl
  | ok r =>
    obtain ⟨s₁, sent⟩ := r
    obtain ⟨rfl, -⟩ := respondToAll_cases hrespond
    simp only [Checked.ok_bind, hl, if_neg hfound]

/-- A `Reconfigure` that ends has computed the length of the range. -/
theorem rangeFits_of_reconfigure (hr : config.RangesOk) {i : ℕ} (hi : i < config.serverId.length)
    (hlocal : s.localId = config.serverId[i]) {s' : Server F} {sent : List (Sent F)}
    (h : s.reconfigure config = .ok (s', sent)) : config.RangeFits i := by
  rw [reconfigure, Checked.bind_eq_ok] at h
  obtain ⟨⟨s₁, msgs⟩, hrespond, h⟩ := h
  obtain ⟨rfl, -⟩ := respondToAll_cases hrespond
  obtain ⟨l, hl, -⟩ := Checked.bind_eq_ok.1 h
  dsimp only at hl
  rw [hlocal] at hl
  exact ((visitServers_visited hr hi rfl rfl hl).local_eq hi).1

/-- When all the agents are still there, they stay as they are. -/
theorem refreshAgents_eq (hagents : ∀ a ∈ s.agentIds, a ∈ config.workerId)
    (hindex : ∀ a ∈ config.workerId, ∃ k, s.idToIndex a = some k)
    (hnum : s.agentNum.toNat ≤ config.workerId.length) :
    s.refreshAgents config = .ok { s with
      agentIds := config.workerId.foldl (fun ids id ↦ ids.insert id) [] } := by
  have hdrop : s.agentIds.foldlM (dropAgent config) s = .ok s := by
    refine Checked.foldlM_eq_self fun a ha ↦ ?_
    rw [dropAgent, if_pos (hagents a ha)]
  rw [refreshAgents, hdrop, Checked.ok_bind]
  refine Checked.foldlM_eq_self fun k hk ↦ ?_
  have hk' : k < config.workerId.length := lt_of_lt_of_le (List.mem_range.1 hk) hnum
  obtain ⟨j, hj⟩ := hindex config.workerId[k] (List.getElem_mem hk')
  rw [addAgent, Checked.get_natCast (List.getElem?_eq_getElem hk'), Checked.ok_bind]
  simp only [hj]

/-- **`Reconfigure` takes over the new range**, and puts backups in front until there are as many
parameters as keys, when all the agents are still there and no pull is blocked. -/
theorem reconfigure_ok (hr : config.RangesOk) {i : ℕ} (hi : i < config.serverId.length)
    (hfits : config.RangeFits i) (hlocal : s.localId = config.serverId[i])
    (hpull : s.pullRequest = []) (hagents : ∀ a ∈ s.agentIds, a ∈ config.workerId)
    (hindex : ∀ a ∈ config.workerId, ∃ k, s.idToIndex a = some k)
    (hnum : s.agentNum.toNat ≤ config.workerId.length)
    (hbackup : s.backupSize.toNat ≤ s.backupParameters.length) :
    ∃ s', s.reconfigure config = .ok (s', []) ∧ s'.startKey = config.startOf i ∧
      s'.parameterLength = config.lengthOf i ∧ s'.keyRange = config.keyRange ∧
      s'.parameters = Circle.splice (config.lengthOf i)
        (s.backupParameters.take s.backupSize.toNat) s.parameters := by
  have hrespond : s.respondToAll = .ok ({ s with pullRequest := [] }, []) := by
    rw [respondToAll, hpull]
    rfl
  obtain ⟨l, hstart, hlength, hsame, heq⟩ := reconfigure_eq hr hi hfits hlocal
  let s₁ : Server F := ({ s with pullRequest := [] }.relocate config l).readdress config
  have hrefresh : s₁.refreshAgents config = .ok { s₁ with
      agentIds := config.workerId.foldl (fun ids id ↦ ids.insert id) [] } :=
    refreshAgents_eq hagents hindex hnum
  have hbackup' : s₁.backupSize.toNat ≤ s₁.backupParameters.length := by
    show s.backupSize.toNat ≤ l.backupParameters.length
    rw [hsame]
    exact hbackup
  have hextend := extendParameter_eq (s := { s₁ with
    agentIds := config.workerId.foldl (fun ids id ↦ ids.insert id) [] }) hbackup'
  rw [heq, hrespond, Checked.ok_bind, hrefresh, Checked.ok_bind, hextend, Checked.ok_bind]
  refine ⟨_, rfl, hstart, hlength, rfl, ?_⟩
  show Circle.splice l.parameterLength (l.backupParameters.take s.backupSize.toNat) s.parameters = _
  rw [hlength, hsame]

end Server

end Rpscc
