import Rpscc.Cluster.Sharding
import Rpscc.Lib.Snapshots
import Rpscc.Server.Requests
import Rpscc.Server.Start

/-!
# Backups, in any interleaving

After every round a server asks the `backup_size_` servers before it for their parameters, with
messages that carry no request at all; each answers with a push of its parameters.  Nothing in an
answer says which round it is from, and several can be under way while their sender goes on.

`BackupNet` is the servers with a first in, first out channel for every ordered pair of them, and
`Step` lets an agent's request be served or the oldest message of a channel be delivered.

The answers in a channel are copies of its sender's parameters, from versions that go up
(`Snapshots.InOrder`), and the backup that was stored last is from a version before them.  This is
`Inv`, which every step keeps, and `backups_genuine` is read off it.
-/

set_option autoImplicit false

namespace Rpscc

variable {F : Type}

/-- One value of a function of two arguments is changed. -/
theorem update_update_apply {α β γ : Type} [DecidableEq α] [DecidableEq β] (f : α → β → γ) (a : α)
    (b : β) (x : γ) (a' : α) (b' : β) :
    Function.update f a (Function.update (f a) b x) a' b'
      = if a' = a ∧ b' = b then x else f a' b' := by
  rw [Function.update_apply]
  split
  · rename_i heq
    subst heq
    simp only [Function.update_apply, true_and]
  · rename_i hne
    rw [if_neg fun hand ↦ hne hand.1]

/-- The place of the server `t + 1` places before server `i`, in a circle of `n`. -/
def source (n i t : ℕ) : ℕ := (i + (n - 1 - t)) % n

theorem source_lt {n : ℕ} (hn : 0 < n) (i t : ℕ) : source n i t < n := Nat.mod_lt _ hn

/-- The index as the servers compute it. -/
theorem natCast_source {n i t : ℕ} (ht : t < n) :
    ((i : Int) - (t + 1) + n) % n = (source n i t : ℕ) := by
  rw [source, Int.natCast_mod]
  congr 1
  push_cast
  omega

/-- The way back: the backup that belongs to a server. -/
theorem slot_source {n i t : ℕ} (ht : t < n) :
    ((i : Int) - 1 - (source n i t : ℕ) + n) % n = t := by
  have hdiv := Nat.div_add_mod (i + (n - 1 - t)) n
  have heq : (i : Int) - 1 - (source n i t : ℕ) + n
      = t + n * ((i + (n - 1 - t)) / n : ℕ) := by
    rw [source, ← Nat.cast_mul]
    omega
  rw [heq, Int.add_mul_emod_self_left, Int.emod_eq_of_lt (Int.natCast_nonneg t) (Int.ofNat_lt.2 ht)]

/-- Different backups come from different servers. -/
theorem source_inj {n i t t' : ℕ} (ht : t < n) (ht' : t' < n) (h : source n i t = source n i t') :
    t = t' := by
  have hslot := slot_source (i := i) ht
  rw [h, slot_source ht'] at hslot
  exact (Int.ofNat.inj hslot).symm

/-! ## How the servers start -/

namespace Server

variable {config : ConfigMessage} {s : Server F}

/-- The server at index `i` knows its place and those of the others. -/
structure Placed (config : ConfigMessage) (i : ℕ) (s : Server F) : Prop where
  localId : config.serverId[i]? = some s.localId
  localIndex : s.localIndex = i
  serverNum : s.serverNum = config.serverId.length
  serverIds : s.serverIds = config.serverId
  servers : s.servers = Lists.placesOf config.serverId
  backupSize : s.backupSize = config.backupSize

theorem Placed.of_same {i : ℕ} {s' : Server F} (h : Placed config i s) (hs : SamePlace s s') :
    Placed config i s' :=
  ⟨by rw [hs.localId, h.localId], by rw [hs.localIndex, h.localIndex],
    by rw [hs.serverNum, h.serverNum], by rw [hs.serverIds, h.serverIds],
    by rw [hs.servers]; exact h.servers, by rw [hs.backupSize, h.backupSize]⟩

variable [FloatOps F]

/-- The room for the backups, when it could be made. -/
theorem initBackups_eq {i : ℕ} {r : List (List F)} (h : initBackups config i [] = .ok r) :
    r.length = config.backupSize.toNat ∧ ∀ t < config.backupSize.toNat, ∃ range,
      Layout.rangeOf config (((i : Int) - (t + 1) + config.serverNum) % config.serverNum)
        = .ok range ∧ r[t]? = some (List.replicate range.2.toNat FloatOps.zero) := by
  refine Checked.foldlM_range_inv (P := fun m (r : List (List F)) ↦ r.length = m ∧ ∀ t < m,
    ∃ range, Layout.rangeOf config (((i : Int) - (t + 1) + config.serverNum) % config.serverNum)
      = .ok range ∧ r[t]? = some (List.replicate range.2.toNat FloatOps.zero)) ?_ ?_ h
  · exact ⟨rfl, fun t ht ↦ absurd ht (Nat.not_lt_zero t)⟩
  · rintro j - y z ⟨hlen, hy⟩ hz
    rw [initBackup, Checked.bind_eq_ok] at hz
    obtain ⟨range, hrange, hz⟩ := hz
    rw [Checked.bind_eq_ok] at hz
    obtain ⟨room, hroom, hz⟩ := hz
    cases hz
    rw [zeros] at hroom
    split at hroom
    · simp at hroom
    · cases hroom
      refine ⟨by rw [List.length_append, hlen]; rfl, fun t ht ↦ ?_⟩
      rcases Nat.lt_succ_iff_lt_or_eq.1 ht with ht | rfl
      · rw [List.getElem?_append_left (by rw [hlen]; exact ht)]
        exact hy t ht
      · refine ⟨range, hrange, ?_⟩
        rw [← hlen, List.getElem?_concat_length]

/-- The loop over the servers, up to the first `m` of them. -/
structure Scanned (config : ConfigMessage) (i m : ℕ) (l : Layout F) : Prop where
  serverIds : l.serverIds = config.serverId.take m
  servers : l.servers = Lists.placesOf (config.serverId.take m)
  before : m ≤ i → l.backupParameters = []
  after : i < m → l.localIndex = i ∧ initBackups config i [] = .ok l.backupParameters ∧
    ∃ range, Layout.rangeOf config i = .ok range ∧ l.parameterLength = range.2

theorem visitServers_scanned (hnodup : config.serverId.Nodup)
    (hnum : config.serverNum = config.serverId.length) {i : ℕ} (hi : i < config.serverId.length)
    {r : Layout F}
    (h : Layout.visitServers config config.serverId[i] (initBackups config)
      ⟨[], fun _ ↦ none, 0, 0, 0, [], false⟩ = .ok r) :
    Scanned config i config.serverId.length r := by
  rw [Layout.visitServers, hnum, Int.toNat_natCast] at h
  refine Checked.foldlM_range_inv (P := fun m (l : Layout F) ↦ Scanned config i m l) ?_ ?_ h
  · exact ⟨rfl, funext fun id ↦ (if_neg List.not_mem_nil).symm, fun _ ↦ rfl,
      fun hlt ↦ absurd hlt (Nat.not_lt_zero i)⟩
  · intro m hm y z hy hz
    rw [Layout.visitServer, Checked.get_natCast (List.getElem?_eq_getElem hm),
      Checked.ok_bind] at hz
    dsimp only at hz
    have hids : y.serverIds ++ [config.serverId[m]] = config.serverId.take (m + 1) := by
      rw [hy.serverIds, List.take_succ_eq_append_getElem hm]
    have hservers : insertNew y.servers config.serverId[m] m
        = Lists.placesOf (config.serverId.take (m + 1)) := by
      have hnew : config.serverId[m] ∉ config.serverId.take m := Lists.getElem_notMem_take hnodup hm
      have hnone : y.servers config.serverId[m] = none := by
        rw [hy.servers]
        exact if_neg hnew
      have hlen : (config.serverId.take m).length = m := List.length_take_of_le hm.le
      rw [List.take_succ_eq_append_getElem hm, Lists.placesOf_concat hnew, hlen, ← hy.servers,
        insertNew, hnone]
    split at hz
    · rename_i heq
      obtain rfl : m = i := hnodup.getElem_inj_iff.1 heq
      rw [Checked.bind_eq_ok] at hz
      obtain ⟨range, hrange, hz⟩ := hz
      rw [Checked.bind_eq_ok] at hz
      obtain ⟨backup, hbackup, hz⟩ := hz
      cases hz
      rw [hy.before (le_refl m)] at hbackup
      exact ⟨hids, hservers, fun hle ↦ absurd hle (Nat.not_succ_le_self m),
        fun _ ↦ ⟨rfl, hbackup, range, hrange, rfl⟩⟩
    · rename_i hne
      cases hz
      have hmi : m ≠ i := fun heq ↦ hne (by subst heq; rfl)
      exact ⟨hids, hservers, fun hle ↦ hy.before (Nat.le_of_succ_le hle),
        fun hlt ↦ hy.after (lt_of_le_of_ne (Nat.le_of_lt_succ hlt) hmi.symm)⟩

/-- **Where the servers start.**  Every server knows its place, its parameters are zeros, and so are
its backups, as many as there are parameters in the ranges they stand for. -/
theorem initializeServer_placed {masterIpPort : String} (hnodup : config.serverId.Nodup)
    (hnum : config.serverNum = config.serverId.length) {i : ℕ} (hi : i < config.serverId.length)
    (h : initializeServer masterIpPort config.serverId[i] config = .ok s) :
    Placed config i s ∧ (0 ≤ config.backupSize ∧ config.backupSize < config.serverNum) ∧
      s.bottomVersion = 0 ∧ s.pullRequest = [] ∧
      s.parameters = List.replicate s.parameterLength.toNat FloatOps.zero ∧
      initBackups config i [] = .ok s.backupParameters ∧
      ∃ range, Layout.rangeOf config i = .ok range ∧ s.parameterLength = range.2 := by
  rw [initializeServer] at h
  dsimp only at h
  split at h
  · simp at h
  · rename_i hbackup
    rw [Checked.bind_eq_ok] at h
    obtain ⟨l, hl, h⟩ := h
    have hscan := visitServers_scanned hnodup hnum hi hl
    split at h
    · simp at h
    · rw [Checked.bind_eq_ok] at h
      obtain ⟨index, -, h⟩ := h
      cases h
      obtain ⟨hindex, hbackups, hrange⟩ := hscan.after hi
      simp only [blank, not_or, not_lt, not_le] at hbackup
      refine ⟨⟨List.getElem?_eq_getElem hi, hindex, hnum, ?_, ?_, rfl⟩, hbackup, rfl, rfl, rfl,
        hbackups, hrange⟩
      · exact hscan.serverIds.trans (List.take_length ..)
      · have hservers := hscan.servers
        rwa [List.take_length] at hservers

end Server

/-! ## The network -/

/-- The servers, and the messages from server `j` to server `i`, the oldest first. -/
structure BackupNet (F : Type) where
  servers : ℕ → Server F
  channel : ℕ → ℕ → List (Message F)

/-- A configuration with distinct servers, and fewer backups than servers. -/
structure ConfigMessage.BackupsOk (config : ConfigMessage) : Prop where
  nodup : config.serverId.Nodup
  serverNum : config.serverNum = config.serverId.length
  backup_nonneg : 0 ≤ config.backupSize
  backup_lt : config.backupSize < config.serverNum

theorem ConfigMessage.BackupsOk.lt {config : ConfigMessage} (hc : config.BackupsOk) {t : ℕ}
    (ht : t < config.backupSize.toNat) :
    t < config.serverId.length := by
  have hlt := hc.backup_lt
  have hnum := hc.serverNum
  omega

/-- Ids tell servers apart. -/
theorem ConfigMessage.BackupsOk.index_eq {config : ConfigMessage} (hc : config.BackupsOk) {j k : ℕ}
    {id : Int}
    (hj : config.serverId[j]? = some id) (hk : config.serverId[k]? = some id) : j = k := by
  obtain ⟨hj', rfl⟩ := List.getElem?_eq_some_iff.1 hj
  obtain ⟨hk', heq⟩ := List.getElem?_eq_some_iff.1 hk
  exact (hc.nodup.getElem_inj_iff.1 heq).symm

/-- Servers that have been initialised on one configuration. -/
structure Initialized [FloatOps F] (config : ConfigMessage) (s₀ : ℕ → Server F) : Prop
    extends config.BackupsOk where
  ok : ∀ (i : ℕ) (id : Int), config.serverId[i]? = some id →
    ∃ masterIpPort, Server.initializeServer masterIpPort id config = .ok (s₀ i)

namespace BackupNet

open ShardNet (messagesFor)

/-- Nothing is under way. -/
def start (s₀ : ℕ → Server F) : BackupNet F := ⟨s₀, fun _ _ ↦ []⟩

/-- What of all that is sent goes to server `j`. -/
def sentTo (config : ConfigMessage) (sent : List (Sent F)) (j : ℕ) : List (Message F) :=
  (config.serverId[j]?.map fun id ↦ messagesFor id sent).getD []

/-- Server `i` has handled a message, and sent some to the others. -/
def handled (config : ConfigMessage) (n : BackupNet F) (i : ℕ) (s : Server F)
    (sent : List (Sent F)) : BackupNet F where
  servers := Function.update n.servers i s
  channel := Function.update n.channel i fun j ↦ n.channel i j ++ sentTo config sent j

/-- The channel from `j` to `i` is left with `rest`. -/
def taken (n : BackupNet F) (j i : ℕ) (rest : List (Message F)) : BackupNet F :=
  { n with channel := Function.update n.channel j (Function.update (n.channel j) i rest) }

variable [FloatOps F]

/-- A server takes a request of an agent, or the oldest message of another server. -/
inductive Step (config : ConfigMessage) : BackupNet F → BackupNet F → Prop
  | request {n : BackupNet F} {i : ℕ} {m : Message F} {s' : Server F} {sent : List (Sent F)}
      (hi : i < config.serverId.length) (hm : m.sendId ∉ config.serverId)
      (htype : m.messageType = .request) (hstart : (n.servers i).start m = .ok (s', sent)) :
      Step config n (n.handled config i s' sent)
  | deliver {n : BackupNet F} {i j : ℕ} {m : Message F} {rest : List (Message F)} {s' : Server F}
      {sent : List (Sent F)} (hi : i < config.serverId.length) (hj : j < config.serverId.length)
      (hm : n.channel j i = m :: rest) (hstart : (n.servers i).start m = .ok (s', sent)) :
      Step config n ((n.taken j i rest).handled config i s' sent)

/-! ## What is under way -/

/-- What holds of every server by itself. -/
structure Sound (config : ConfigMessage) (i : ℕ) (s : Server F) : Prop where
  placed : Server.Placed config i s
  length : s.parameters.length = s.parameterLength.toNat
  pulls : ∀ p ∈ s.pullRequest, p.id ∉ config.serverId
  room : s.backupParameters.length = config.backupSize.toNat

/-- The parameters in an answer; a message that asks for them has none. -/
def copy (m : Message F) : Option (List F) := m.requestMsg.map RequestMessage.values

/-- A message of server `j` to server `i` asks the one `t + 1` places before, or answers the one
`t + 1` places after. -/
structure Underway (config : ConfigMessage) (j i : ℕ) (m : Message F) : Prop where
  sender : config.serverId[j]? = some m.sendId
  ask : m.requestMsg = none →
    ∃ t < config.backupSize.toNat, i = source config.serverId.length j t
  answer : m.requestMsg ≠ none →
    ∃ t < config.backupSize.toNat, j = source config.serverId.length i t

/-- What holds of the servers and the messages between them.  `had j v p` says that server `j` had
the parameters `p` after `v` rounds, and `version i t` is the round from which server `i` has its
backup `t`. -/
structure Inv (config : ConfigMessage) (had : ℕ → Int → List F → Prop) (version : ℕ → ℕ → Int)
    (n : BackupNet F) : Prop where
  sound : ∀ i < config.serverId.length, Sound config i (n.servers i)
  underway : ∀ i < config.serverId.length, ∀ j, ∀ m ∈ n.channel j i, Underway config j i m
  stored : ∀ i < config.serverId.length, ∀ t < config.backupSize.toNat, ∃ p,
    (n.servers i).backupParameters[t]? = some p ∧
      had (source config.serverId.length i t) (version i t) p
  order : ∀ i < config.serverId.length, ∀ t < config.backupSize.toNat,
    Snapshots.InOrder (had (source config.serverId.length i t)) (version i t)
      ((n.channel (source config.serverId.length i t) i).map copy)
      (n.servers (source config.serverId.length i t)).bottomVersion

variable {config : ConfigMessage} {had had' : ℕ → Int → List F → Prop} {version : ℕ → ℕ → Int}
  {n : BackupNet F}

section

omit [FloatOps F]

@[simp] theorem handled_servers (i : ℕ) (s : Server F) (sent : List (Sent F)) (j : ℕ) :
    (n.handled config i s sent).servers j = if j = i then s else n.servers j :=
  Function.update_apply ..

@[simp] theorem handled_channel (i : ℕ) (s : Server F) (sent : List (Sent F)) (j k : ℕ) :
    (n.handled config i s sent).channel j k
      = n.channel j k ++ if j = i then sentTo config sent k else [] := by
  show Function.update n.channel i (fun k ↦ n.channel i k ++ sentTo config sent k) j k = _
  rw [Function.update_apply]
  split
  · rename_i heq
    rw [heq]
  · rw [List.append_nil]

/-- A server handles a message and keeps its backups.  What it sends are messages that ask, and
answers with its present parameters. -/
theorem Inv.handled (h : Inv config had version n) {i : ℕ}
    (hhad : ∀ j v p, had j v p → had' j v p) {s : Server F} {sent : List (Sent F)}
    (hsound : Sound config i s) (hbackup : s.backupParameters = (n.servers i).backupParameters)
    (hversion : (n.servers i).bottomVersion ≤ s.bottomVersion)
    (hsent : ∀ j < config.serverId.length, ∀ m ∈ sentTo config sent j, Underway config i j m)
    (hcopy : ∀ j < config.serverId.length, ∀ m ∈ sentTo config sent j, ∀ p, copy m = some p →
      had' i s.bottomVersion p) :
    Inv config had' version (n.handled config i s sent) := by
  refine ⟨fun j hj ↦ ?_, fun j hj k m hm ↦ ?_, fun j hj t ht ↦ ?_, fun j hj t ht ↦ ?_⟩
  · rw [handled_servers]
    split
    · rename_i heq
      exact heq ▸ hsound
    · exact h.sound j hj
  · rw [handled_channel, List.mem_append] at hm
    rcases hm with hm | hm
    · exact h.underway j hj k m hm
    · split at hm
      · rename_i heq
        exact heq ▸ hsent j hj m hm
      · exact absurd hm List.not_mem_nil
  · obtain ⟨p, hp, hold⟩ := h.stored j hj t ht
    refine ⟨p, ?_, hhad _ _ _ hold⟩
    rw [handled_servers]
    split
    · rename_i heq
      rw [hbackup, ← heq]
      exact hp
    · exact hp
  · rw [handled_channel, handled_servers, List.map_append]
    have hold := h.order j hj t ht
    split
    · rename_i heq
      rw [heq] at hold ⊢
      refine (hold.mono hversion (hhad i)).append fun p hp ↦ ?_
      obtain ⟨m, hm, hcopy'⟩ := List.mem_map.1 hp
      exact hcopy j hj m hm p hcopy'
    · rw [List.map_nil, List.append_nil]
      exact hold.mono (le_refl _) (hhad _)

@[simp] theorem taken_channel (j i : ℕ) (rest : List (Message F)) (j' i' : ℕ) :
    (n.taken j i rest).channel j' i' = if j' = j ∧ i' = i then rest else n.channel j' i' :=
  update_update_apply ..

theorem Inv.underway_taken (h : Inv config had version n) {i j : ℕ} {m : Message F}
    {rest : List (Message F)} (hm : n.channel j i = m :: rest) :
    ∀ i' < config.serverId.length, ∀ j', ∀ m' ∈ (n.taken j i rest).channel j' i',
      Underway config j' i' m' := by
  intro i' hi' j' m' hm'
  rw [taken_channel] at hm'
  split at hm'
  · rename_i heq
    obtain ⟨rfl, rfl⟩ := heq
    exact h.underway i' hi' j' m' (by rw [hm]; exact List.mem_cons_of_mem _ hm')
  · exact h.underway i' hi' j' m' hm'

/-- The oldest message of a channel is taken out, and asks. -/
theorem Inv.taken (h : Inv config had version n) {i j : ℕ} {m : Message F}
    {rest : List (Message F)} (hm : n.channel j i = m :: rest) (hask : m.requestMsg = none) :
    Inv config had version (n.taken j i rest) := by
  refine ⟨h.sound, h.underway_taken hm, h.stored, fun i' hi' t ht ↦ ?_⟩
  rw [taken_channel]
  have hold := h.order i' hi' t ht
  split
  · rename_i heq
    rw [heq.1, heq.2, hm, List.map_cons, copy, hask] at hold
    rw [heq.1]
    exact heq.2 ▸ hold
  · exact hold

/-! ## Answers -/

/-- Backup `t` of the server is replaced. -/
def storeBackup (s : Server F) (t : ℕ) (p : List F) : Server F :=
  { s with backupParameters := s.backupParameters.set t p }

/-- Who a server takes a message of another server to be from. -/
theorem servers_eq (hc : config.BackupsOk) {i j : ℕ} {s : Server F} (h : Server.Placed config i s)
    {id : Int} (hid : config.serverId[j]? = some id) : s.servers id = some (j : Int) := by
  obtain ⟨hj, rfl⟩ := List.getElem?_eq_some_iff.1 hid
  rw [h.servers, Lists.placesOf_eq_some, hc.nodup.idxOf_getElem j hj]
  exact ⟨List.getElem_mem hj, rfl⟩

/-- An answer of the server `t + 1` places before goes to place `t`. -/
theorem backup_eq (hc : config.BackupsOk) {i t : ℕ} {s : Server F} (h : Sound config i s)
    (ht : t < config.backupSize.toNat) {m : Message F}
    (hm : config.serverId[source config.serverId.length i t]? = some m.sendId) {p : List F}
    (hp : copy m = some p) :
    s.backup m = .ok (storeBackup s t p) := by
  have hplace : s.placeOf m.sendId
      = (s, (source config.serverId.length i t : Int)) := by
    rw [Server.placeOf, servers_eq hc h.placed hm]
  have hlt := source_lt (lt_of_le_of_lt (Nat.zero_le t) (hc.lt ht)) i t
  have hmod : Checked.tmod
      (s.localIndex - 1 - (source config.serverId.length i t : ℕ) + s.serverNum)
      s.serverNum = .ok (t : Int) := by
    rw [h.placed.localIndex, h.placed.serverNum, Checked.tmod_of_nonneg (by omega) (by omega),
      slot_source (hc.lt ht)]
  have hroom : t < s.backupParameters.length := by rw [h.room]; exact ht
  have hvalues : (m.requestMsg.getD ⟨.keyValue, [], []⟩).values = p := by
    cases hrequest : m.requestMsg with
    | none =>
      rw [copy, hrequest] at hp
      simp at hp
    | some request =>
      rw [copy, hrequest] at hp
      exact Option.some.inj hp
  rw [Server.backup, hplace]
  dsimp only
  rw [hmod, Checked.ok_bind, Checked.get_natCast (List.getElem?_eq_getElem hroom), Checked.ok_bind,
    Int.toNat_natCast, hvalues]
  rfl

/-- The messages that ask, and whom. -/
theorem mem_requestBackup (hc : config.BackupsOk) {i : ℕ} {s : Server F}
    (h : Server.Placed config i s) {backup : List (Sent F)} (hb : s.requestBackup = .ok backup)
    {e : Sent F} (he : e ∈ backup) : ∃ t < config.backupSize.toNat,
      config.serverId[source config.serverId.length i t]? = some e.dst ∧
        e.msg.sendId = s.localId ∧ e.msg.requestMsg = none := by
  obtain ⟨t, ht, hsend⟩ := Checked.mem_of_mapM_ok hb e he
  rw [List.mem_range, h.backupSize] at ht
  have hlt := hc.lt ht
  rw [h.localIndex, h.serverNum, Checked.tmod_of_nonneg (by omega) (by omega), natCast_source hlt,
    Checked.ok_bind, Checked.bind_eq_ok] at hsend
  obtain ⟨id, hid, hsend⟩ := hsend
  cases hsend
  rw [Checked.get_eq_ok_iff, Int.toNat_natCast, h.serverIds] at hid
  exact ⟨t, ht, hid.2, rfl, rfl⟩

theorem mem_sentTo {sent : List (Sent F)} {k : ℕ} {m : Message F} (h : m ∈ sentTo config sent k) :
    ∃ e ∈ sent, config.serverId[k]? = some e.dst ∧ e.msg = m := by
  rw [sentTo] at h
  cases hid : config.serverId[k]? with
  | none =>
    rw [hid] at h
    exact absurd h List.not_mem_nil
  | some id =>
    rw [hid] at h
    obtain ⟨e, he, rfl⟩ := List.mem_map.1 h
    rw [List.mem_filter, decide_eq_true_eq] at he
    exact ⟨e, he.1, by rw [he.2], rfl⟩

@[simp] theorem sentTo_nil (k : ℕ) : sentTo (F := F) config [] k = [] := by
  rw [sentTo]
  cases config.serverId[k]? with
  | none => rfl
  | some id => rfl

theorem mem_sentTo_singleton {e : Sent F} {k : ℕ} {m : Message F} (h : m ∈ sentTo config [e] k) :
    config.serverId[k]? = some e.dst ∧ m = e.msg := by
  obtain ⟨e', he, hid, rfl⟩ := mem_sentTo h
  rw [List.mem_singleton.1 he] at hid ⊢
  exact ⟨hid, rfl⟩

/-- A message that asks is answered with the present parameters. -/
theorem Inv.ask (hc : config.BackupsOk) (h : Inv config had version n) {i j : ℕ}
    (hi : i < config.serverId.length) {m : Message F} {rest : List (Message F)}
    (hm : n.channel j i = m :: rest) (hask : m.requestMsg = none) (hu : Underway config j i m)
    (hhad : ∀ j v p, had j v p → had' j v p)
    (hnow : had' i (n.servers i).bottomVersion (n.servers i).parameters) {reply : Sent F}
    (hreply : (n.servers i).respondBackup m.sendId = .ok reply) :
    Inv config had' version ((n.taken j i rest).handled config i (n.servers i) [reply]) := by
  have hs := h.sound i hi
  rw [Server.respondBackup_eq hs.length] at hreply
  cases hreply
  refine (h.taken hm hask).handled hhad hs rfl (le_refl _) (fun k _ m' hm' ↦ ?_)
    fun k _ m' hm' p hp ↦ ?_
  · obtain ⟨hid, rfl⟩ := mem_sentTo_singleton hm'
    obtain rfl := hc.index_eq hid hu.sender
    exact ⟨hs.placed.localId, fun hnone ↦ absurd hnone (Option.some_ne_none _), fun _ ↦ hu.ask hask⟩
  · obtain ⟨-, rfl⟩ := mem_sentTo_singleton hm'
    obtain rfl : (n.servers i).parameters = p := Option.some.inj hp
    exact hnow

/-- An answer is stored, and is not older than what it replaces. -/
theorem Inv.answer (hc : config.BackupsOk) (h : Inv config had version n) {i t : ℕ}
    (hi : i < config.serverId.length) (ht : t < config.backupSize.toNat) {m : Message F}
    {rest : List (Message F)}
    (hm : n.channel (source config.serverId.length i t) i = m :: rest) {p : List F}
    (hp : copy m = some p) (hhad : ∀ j v p, had j v p → had' j v p) :
    ∃ w, version i t ≤ w ∧
      Inv config had' (Function.update version i (Function.update (version i) t w))
        ((n.taken (source config.serverId.length i t) i rest).handled config i
          (storeBackup (n.servers i) t p) []) := by
  have hs := h.sound i hi
  have horder := h.order i hi t ht
  rw [hm, List.map_cons, hp] at horder
  obtain ⟨w, hle, hw, horder⟩ := horder
  refine ⟨w, hle, fun j hj ↦ ?_, fun j hj k m' hm' ↦ ?_, fun j hj t' ht' ↦ ?_, fun j hj t' ht' ↦ ?_⟩
  · rw [handled_servers]
    split
    · rename_i heq
      subst heq
      exact ⟨hs.placed.of_same ⟨rfl, rfl, rfl, rfl, rfl, rfl, rfl⟩, hs.length, hs.pulls,
        (List.length_set ..).trans hs.room⟩
    · exact h.sound j hj
  · rw [handled_channel, sentTo_nil, ite_self, List.append_nil] at hm'
    exact h.underway_taken hm j hj k m' hm'
  · rw [handled_servers, update_update_apply]
    by_cases heq : j = i ∧ t' = t
    · obtain ⟨rfl, rfl⟩ := heq
      rw [if_pos rfl, if_pos ⟨rfl, rfl⟩]
      exact ⟨p, List.getElem?_set_self (by rw [hs.room]; exact ht), hhad _ _ _ hw⟩
    · obtain ⟨q, hq, hold⟩ := h.stored j hj t' ht'
      rw [if_neg heq]
      refine ⟨q, ?_, hhad _ _ _ hold⟩
      split
      · rename_i hji
        subst hji
        show ((n.servers j).backupParameters.set t p)[t']? = some q
        rw [List.getElem?_set_ne fun hne ↦ heq ⟨rfl, hne.symm⟩]
        exact hq
      · exact hq
  · rw [handled_channel, sentTo_nil, ite_self, List.append_nil, taken_channel, update_update_apply,
      handled_servers]
    have hbottom : ∀ k, (if k = i then storeBackup (n.servers i) t p else n.servers k).bottomVersion
        = (n.servers k).bottomVersion := by
      intro k
      split
      · rename_i heq
        rw [heq]
        rfl
      · rfl
    -- the channel that was read is that of the backup that was replaced, and no other
    have hchannel :
        (source config.serverId.length j t' = source config.serverId.length i t ∧ j = i) ↔
        (j = i ∧ t' = t) := by
      constructor
      · rintro ⟨hsource, rfl⟩
        exact ⟨rfl, source_inj (hc.lt ht') (hc.lt ht) hsource⟩
      · rintro ⟨rfl, rfl⟩
        exact ⟨rfl, rfl⟩
    simp only [hchannel]
    split
    · rename_i heq
      obtain ⟨rfl, rfl⟩ := heq
      exact horder.mono (le_of_eq (hbottom _).symm) (hhad _)
    · exact (h.order j hj t' ht').mono (le_of_eq (hbottom _).symm) (hhad _)

end

/-! ## Steps -/

/-- A request of an agent is served. -/
theorem start_request {i : ℕ} {s s' : Server F} (h : Server.Placed config i s) {m : Message F}
    (hm : m.sendId ∉ config.serverId) (htype : m.messageType = .request) {sent : List (Sent F)}
    (hstart : s.start m = .ok (s', sent)) : Server.Served m.sendId s s' sent := by
  have hnone : ¬ (s.servers m.sendId).isSome = true := by
    rw [h.servers, Lists.placesOf, if_neg hm]
    exact Bool.false_ne_true
  rw [Server.start, if_neg hnone, if_pos htype] at hstart
  split at hstart
  · rename_i call hcall
    rw [Checked.bind_eq_ok] at hstart
    obtain ⟨⟨s₁, r⟩, hserve, hstart⟩ := hstart
    cases hstart
    have hserved := Server.serve_served hserve
    have hsender : call.senderId = m.sendId := by
      rw [Server.Call.ofMessage, if_pos htype] at hcall
      dsimp only at hcall
      split at hcall <;> cases hcall <;> rfl
    rwa [hsender] at hserved
  · cases hstart
    exact ⟨.refl s, rfl, rfl, .inl ⟨rfl, rfl⟩, fun p hp ↦ .inl hp,
      fun e he ↦ absurd he List.not_mem_nil⟩

/-- A message of another server that asks is answered. -/
theorem start_ask (hc : config.BackupsOk) {i j : ℕ} {s : Server F} (h : Sound config i s)
    {m : Message F} (hu : Underway config j i m) (hask : m.requestMsg = none) :
    ∃ reply, s.respondBackup m.sendId = .ok reply ∧ s.start m = .ok (s, [reply]) := by
  refine ⟨_, Server.respondBackup_eq h.length m.sendId, ?_⟩
  have hnone : ¬ m.requestMsg.isSome = true := by
    rw [hask]
    exact Bool.false_ne_true
  rw [Server.start, servers_eq hc h.placed hu.sender, if_pos Option.isSome_some, if_neg hnone,
    Server.respondBackup_eq h.length m.sendId, Checked.ok_bind]

/-- An answer of another server is stored. -/
theorem start_answer (hc : config.BackupsOk) {i t : ℕ} {s : Server F} (h : Sound config i s)
    (ht : t < config.backupSize.toNat) {m : Message F}
    (hu : Underway config (source config.serverId.length i t) i m) {p : List F}
    (hp : copy m = some p) : s.start m = .ok (storeBackup s t p, []) := by
  have hsome : m.requestMsg.isSome = true := by
    rw [← Option.isSome_map (f := RequestMessage.values)]
    exact Option.isSome_iff_exists.2 ⟨p, hp⟩
  rw [Server.start, servers_eq hc h.placed hu.sender, if_pos Option.isSome_some, if_pos hsome,
    backup_eq hc h ht hu.sender hp, Checked.ok_bind]

/-- **One step.**  The servers and messages stay as described, and no backup gets older. -/
theorem Inv.step (hc : config.BackupsOk) (h : Inv config had version n) {n' : BackupNet F}
    (hstep : Step config n n') (hhad : ∀ j v p, had j v p → had' j v p)
    (hnow : ∀ i < config.serverId.length,
      had' i (n.servers i).bottomVersion (n.servers i).parameters) :
    ∃ version', (∀ i t, version i t ≤ version' i t) ∧ Inv config had' version' n' := by
  cases hstep with
  | @request i m s' sent hi hm htype hstart =>
    have hs := h.sound i hi
    have hserved := start_request hs.placed hm htype hstart
    have hto : ∀ k, ∀ m' ∈ sentTo config sent k, ∃ t < config.backupSize.toNat,
        k = source config.serverId.length i t ∧ m'.sendId = (n.servers i).localId ∧
          m'.requestMsg = none := by
      intro k m' hm'
      obtain ⟨e, he, hid, rfl⟩ := mem_sentTo hm'
      have hmem : e.dst ∈ config.serverId := List.mem_of_getElem? hid
      rcases hserved.sent e he with hdst | ⟨p, hp, hdst⟩ | ⟨backup, hbackup, he⟩
      · exact absurd (hdst ▸ hmem) hm
      · exact absurd (hdst ▸ hmem) (hs.pulls p hp)
      · obtain ⟨t, ht, hid', hsend, hnone⟩ := mem_requestBackup hc hs.placed hbackup he
        exact ⟨t, ht, hc.index_eq hid hid', hsend, hnone⟩
    refine ⟨version, fun _ _ ↦ le_refl _, h.handled hhad ?_ hserved.backups ?_ (fun k _ m' hm' ↦ ?_)
      fun k _ m' hm' p hp ↦ ?_⟩
    · refine ⟨hs.placed.of_same hserved.place, ?_, fun p hp ↦ ?_, by rw [hserved.backups, hs.room]⟩
      · rw [hserved.length, hs.length, hserved.place.parameterLength]
      · rcases hserved.pulls p hp with hp | hid
        · exact hs.pulls p hp
        · exact hid ▸ hm
    · rcases hserved.version with ⟨heq, -⟩ | heq
      · exact le_of_eq heq.symm
      · exact le_of_lt (Int.lt_iff_add_one_le.2 (le_of_eq heq.symm))
    · obtain ⟨t, ht, rfl, hsend, hnone⟩ := hto k m' hm'
      exact ⟨hsend ▸ hs.placed.localId, fun _ ↦ ⟨t, ht, rfl⟩, fun hnot ↦ absurd hnone hnot⟩
    · obtain ⟨-, -, -, -, hnone⟩ := hto k m' hm'
      rw [copy, hnone] at hp
      simp at hp
  | @deliver i j m rest s' sent hi hj hm hstart =>
    have hs := h.sound i hi
    have hu := h.underway i hi j m (by rw [hm]; exact List.mem_cons_self ..)
    cases hrequest : m.requestMsg with
    | none =>
      obtain ⟨reply, hreply, heq⟩ := start_ask hc hs hu hrequest
      rw [hstart] at heq
      cases heq
      exact ⟨version, fun _ _ ↦ le_refl _, h.ask hc hi hm hrequest hu hhad (hnow i hi) hreply⟩
    | some request =>
      obtain ⟨t, ht, rfl⟩ := hu.answer (by rw [hrequest]; exact Option.some_ne_none _)
      have hp : copy m = some request.values := by rw [copy, hrequest]; rfl
      rw [start_answer hc hs ht hu hp] at hstart
      cases hstart
      obtain ⟨w, hle, hinv⟩ := h.answer hc hi ht hm hp hhad
      refine ⟨_, fun i' t' ↦ ?_, hinv⟩
      rw [update_update_apply]
      split
      · rename_i heq
        rw [heq.1, heq.2]
        exact hle
      · exact le_refl _

/-- Whatever comes out of a channel can be handled. -/
theorem Inv.start_ok (hc : config.BackupsOk) (h : Inv config had version n) {i j : ℕ}
    (hi : i < config.serverId.length) {m : Message F} {rest : List (Message F)}
    (hm : n.channel j i = m :: rest) : ∃ r, (n.servers i).start m = .ok r := by
  have hu := h.underway i hi j m (by rw [hm]; exact List.mem_cons_self ..)
  cases hrequest : m.requestMsg with
  | none =>
    obtain ⟨reply, -, heq⟩ := start_ask hc (h.sound i hi) hu hrequest
    exact ⟨_, heq⟩
  | some request =>
    obtain ⟨t, ht, rfl⟩ := hu.answer (by rw [hrequest]; exact Option.some_ne_none _)
    exact ⟨_, start_answer hc (h.sound i hi) ht hu (by rw [copy, hrequest]; rfl)⟩

/-! ## Runs -/

/-- Up to time `k` of a run, server `j` had the parameters `p` after `v` rounds. -/
def Had (run : ℕ → BackupNet F) (k j : ℕ) (v : Int) (p : List F) : Prop :=
  ∃ k' ≤ k, ((run k').servers j).bottomVersion = v ∧ ((run k').servers j).parameters = p

/-- In the beginning all parameters and all backups are zeros. -/
theorem inv_start {s₀ : ℕ → Server F} (h : Initialized config s₀) {run : ℕ → BackupNet F}
    (hrun : run 0 = start s₀) : Inv config (Had run 0) (fun _ _ ↦ 0) (run 0) := by
  have hinit : ∀ i < config.serverId.length, Server.Placed config i (s₀ i) ∧
      (s₀ i).bottomVersion = 0 ∧ (s₀ i).pullRequest = [] ∧
      (s₀ i).parameters = List.replicate (s₀ i).parameterLength.toNat FloatOps.zero ∧
      Server.initBackups config i [] = .ok (s₀ i).backupParameters ∧
      ∃ range, Layout.rangeOf config i = .ok range ∧ (s₀ i).parameterLength = range.2 := by
    intro i hi
    obtain ⟨masterIpPort, hok⟩ := h.ok i _ (List.getElem?_eq_getElem hi)
    obtain ⟨hplaced, -, hrest⟩ := Server.initializeServer_placed h.nodup h.serverNum hi hok
    exact ⟨hplaced, hrest⟩
  rw [hrun]
  refine ⟨fun i hi ↦ ?_, fun i _ j m hm ↦ absurd hm List.not_mem_nil, fun i hi t ht ↦ ?_,
    fun i _ t _ ↦ ?_⟩
  · obtain ⟨hplaced, -, hpulls, hparameters, hbackups, -⟩ := hinit i hi
    refine ⟨hplaced, ?_, fun p hp ↦ ?_, (Server.initBackups_eq hbackups).1⟩
    · show (s₀ i).parameters.length = _
      rw [hparameters, List.length_replicate]
      rfl
    · rw [start, hpulls] at hp
      exact absurd hp List.not_mem_nil
  · obtain ⟨-, -, -, -, hbackups, -⟩ := hinit i hi
    have hlt := h.lt ht
    obtain ⟨range, hrange, hroom⟩ := (Server.initBackups_eq hbackups).2 t ht
    obtain ⟨-, hversion, -, hparameters, -, range', hrange', hlength⟩ :=
      hinit (source config.serverId.length i t) (source_lt (lt_of_le_of_lt (Nat.zero_le t) hlt) i t)
    rw [h.serverNum, natCast_source hlt, hrange'] at hrange
    cases hrange
    refine ⟨_, hroom, 0, le_refl 0, by rw [hrun]; exact hversion, ?_⟩
    rw [hrun, ← hlength]
    exact hparameters
  · obtain ⟨-, hversion, -⟩ := hinit (source config.serverId.length i t)
      (source_lt (lt_of_le_of_lt (Nat.zero_le t) (h.lt ‹_›)) i t)
    exact le_of_eq hversion.symm

/-- The versions of the backups over a run. -/
theorem exists_versions {s₀ : ℕ → Server F} (h : Initialized config s₀) {run : ℕ → BackupNet F}
    (hrun : run 0 = start s₀) : ∀ {len : ℕ}, (∀ k < len, Step config (run k) (run (k + 1))) →
      ∃ version : ℕ → ℕ → ℕ → Int,
        (∀ k ≤ len, Inv config (Had run k) (version k) (run k)) ∧
        ∀ k < len, ∀ i t, version k i t ≤ version (k + 1) i t
  | 0, _ => by
    refine ⟨fun _ _ _ ↦ 0, fun k hk ↦ ?_, fun k hk ↦ absurd hk (Nat.not_lt_zero k)⟩
    rw [Nat.le_zero.1 hk]
    exact inv_start h hrun
  | len + 1, hsteps => by
    obtain ⟨version, hinv, hmono⟩ := exists_versions h hrun fun k hk ↦
      hsteps k (Nat.lt_succ_of_lt hk)
    obtain ⟨version', hle, hinv'⟩ := (hinv len (le_refl len)).step h.toBackupsOk
      (hsteps len (Nat.lt_succ_self len))
      (fun j v p ⟨k', hk', hp⟩ ↦ ⟨k', Nat.le_succ_of_le hk', hp⟩ :
        ∀ j v p, Had run len j v p → Had run (len + 1) j v p)
      fun i _ ↦ ⟨len, Nat.le_succ len, rfl, rfl⟩
    have hold : ∀ k ≤ len, Function.update version (len + 1) version' k = version k := fun k hk ↦
      Function.update_of_ne (Nat.lt_succ_of_le hk).ne _ _
    refine ⟨Function.update version (len + 1) version', fun k hk ↦ ?_, fun k hk i t ↦ ?_⟩
    · rcases Nat.le_succ_iff.1 hk with hk | rfl
      · rw [hold k hk]
        exact hinv k hk
      · rw [Function.update_self]
        exact hinv'
    · rcases Nat.lt_succ_iff_lt_or_eq.1 hk with hk | rfl
      · rw [hold k hk.le, hold (k + 1) hk]
        exact hmono k hk i t
      · rw [hold k (le_refl k), Function.update_self]
        exact hle i t

/-- **Backups are genuine, attributed and never go backwards.**  In every run of servers that have
been initialised on one configuration, whatever the agents request and in whatever order the
messages are delivered, backup `t` of server `i` is all the parameters that the server `t + 1`
places before it had after some number of rounds, and this number never gets smaller; and every
message that comes out of a channel can be handled, so that `Backup` finds its place. -/
theorem backups_genuine {s₀ : ℕ → Server F} (h : Initialized config s₀) {run : ℕ → BackupNet F}
    (hrun : run 0 = start s₀) {len : ℕ} (hsteps : ∀ k < len, Step config (run k) (run (k + 1))) :
    (∃ version : ℕ → ℕ → ℕ → Int,
      (∀ k ≤ len, ∀ i < config.serverId.length, ∀ t < config.backupSize.toNat, ∃ k' ≤ k,
        ((run k').servers (source config.serverId.length i t)).bottomVersion = version k i t ∧
        ((run k).servers i).backupParameters[t]?
          = some ((run k').servers (source config.serverId.length i t)).parameters) ∧
      ∀ k < len, ∀ i t, version k i t ≤ version (k + 1) i t) ∧
    ∀ k ≤ len, ∀ i < config.serverId.length, ∀ (j : ℕ) (m : Message F) (rest : List (Message F)),
      (run k).channel j i = m :: rest → ∃ r, ((run k).servers i).start m = .ok r := by
  obtain ⟨version, hinv, hmono⟩ := exists_versions h hrun hsteps
  refine ⟨⟨version, fun k hk i hi t ht ↦ ?_, hmono⟩, fun k hk i hi j m rest hm ↦ ?_⟩
  · obtain ⟨p, hp, k', hk', hversion, rfl⟩ := (hinv k hk).stored i hi t ht
    exact ⟨k', hk', hversion, hp⟩
  · exact (hinv k hk).start_ok h.toBackupsOk hi hm

/-- Two servers with a backup each, and one worker. -/
def twoBackups : ConfigMessage where
  workerNum := 1
  serverNum := 2
  keyRange := 4
  nodeIpPort := ["m", "s1", "s2", "w"]
  partition := [0, 2]
  backupSize := 1
  serverId := [1, 2]
  workerId := [3]
  masterId := [0]
  bound := 1

/-- A push of the worker. -/
def pushOne (key : Int) : Message Int where
  sendId := 3
  recvId := 1
  messageType := .request
  requestMsg := some ⟨.keyValue, [key], [7]⟩

/-- Both servers complete a round, and the second one gets the parameters of the first. -/
theorem backups_genuine_twoBackups : ∃ (s₀ : ℕ → Server Int) (run : ℕ → BackupNet Int),
    Initialized twoBackups s₀ ∧ run 0 = start s₀ ∧
    (∀ k < 5, Step twoBackups (run k) (run (k + 1))) ∧
    ((run 5).servers 1).backupParameters = [[7, 0]] ∧
    ∃ k' ≤ 5, ((run 5).servers 1).backupParameters[0]? = some ((run k').servers 0).parameters := by
  have hnet : ∃ (a b : Server Int) (n₁ n₂ n₃ n₄ n₅ : BackupNet Int),
      Server.initializeServer "m" 1 twoBackups = .ok a ∧
      Server.initializeServer "m" 2 twoBackups = .ok b ∧
      Step twoBackups (start fun i ↦ if i = 0 then a else b) n₁ ∧ Step twoBackups n₁ n₂ ∧
      Step twoBackups n₂ n₃ ∧ Step twoBackups n₃ n₄ ∧ Step twoBackups n₄ n₅ ∧
      (n₅.servers 1).backupParameters = [[7, 0]] :=
    ⟨_, _, _, _, _, _, _, rfl, rfl,
      .request (i := 0) (m := pushOne 0) (by decide) (by decide) rfl rfl,
      .request (i := 1) (m := pushOne 3) (by decide) (by decide) rfl rfl,
      .deliver (i := 0) (j := 1) (by decide) (by decide) rfl rfl,
      .deliver (i := 1) (j := 0) (by decide) (by decide) rfl rfl,
      .deliver (i := 1) (j := 0) (by decide) (by decide) rfl rfl, rfl⟩
  obtain ⟨a, b, n₁, n₂, n₃, n₄, n₅, ha, hb, h₁, h₂, h₃, h₄, h₅, hbackup⟩ := hnet
  have hinit : Initialized twoBackups fun i ↦ if i = 0 then a else b := by
    refine ⟨⟨by decide, rfl, by decide, by decide⟩, fun i id hid ↦ ⟨"m", ?_⟩⟩
    rcases i with _ | _ | i
    · cases hid
      exact ha
    · cases hid
      exact hb
    · cases hid
  have hsteps : ∀ k < 5, Step twoBackups
      ([start fun i ↦ if i = 0 then a else b, n₁, n₂, n₃, n₄].getD k n₅)
      ([start fun i ↦ if i = 0 then a else b, n₁, n₂, n₃, n₄].getD (k + 1) n₅) := by
    intro k hk
    rcases k with _ | _ | _ | _ | _ | k
    · exact h₁
    · exact h₂
    · exact h₃
    · exact h₄
    · exact h₅
    · omega
  obtain ⟨⟨version, hgenuine, -⟩, -⟩ := backups_genuine hinit
    (show [start fun i ↦ if i = 0 then a else b, n₁, n₂, n₃, n₄].getD 0 n₅ = _ from rfl) hsteps
  obtain ⟨k', hk', -, hold⟩ := hgenuine 5 (le_refl 5) 1 (by decide) 0 (by decide)
  exact ⟨_, _, hinit, rfl, hsteps, hbackup, k', hk', hold⟩

end BackupNet

end Rpscc
