import Mathlib.Logic.Relation
import Rpscc.Cluster.SharedMemory

/-!
# The worker and its agent, with the bytes they share

`Channel` is the worker and its agent with the blocks of shared memory as they are meant.  Here each
access to a block is one to its bytes: the worker packs and unpacks numbers, and the agent takes the
memory as a `shmstruct`.

In a `MappedChannel` the blocks of its channel are what the bytes are.  Nothing else can go wrong:
the runs with bytes are runs of `Channel`, and as long as a block has room for all the weights no
access of the worker to memory fails in them (`MappedChannel.bytes_refine_blocks`).  The reason is
that nothing out of range is ever read (`MappedChannel.InRange`).
-/

set_option autoImplicit false

namespace Rpscc

open Words (Memory File)

variable {F D : Type}

/-- A worker and its agent with the bytes that they share: the worker has both pieces of memory open
as files, and the blocks are what the agent sees of them. -/
structure MappedChannel (F : Type) [FloatBits F] where
  channel : Channel F
  /-- `w`, for what the worker has to say. -/
  gradFile : File 201
  /-- `m`, for what the agent has to say. -/
  paraFile : File 201
  gradMemory_eq : channel.gradMemory = Shmstruct.ofMemory gradFile.toMemory
  paraMemory_eq : channel.paraMemory = Shmstruct.ofMemory paraFile.toMemory

namespace MappedChannel

open Channel (Action)

variable [FloatOps F] [FloatBits F] [Doubles D F]

/-- The worker starts its loop, the agent waits for a signal, and the memory is as it is. -/
def start (ag : Agent F) (gradFile paraFile : File 201) : MappedChannel F where
  channel := .start ag (Shmstruct.ofMemory gradFile.toMemory)
    (Shmstruct.ofMemory paraFile.toMemory)
  gradFile := gradFile
  paraFile := paraFile
  gradMemory_eq := rfl
  paraMemory_eq := rfl

/-- `[i for i in range(num_features + 1)]`. -/
def featureKeys (numFeatures : ℕ) : List Int :=
  (List.range (numFeatures + 1)).map fun i : ℕ ↦ (i : Int)

/-- The actions in which bytes are written or unpacked, and those in which a message brings numbers.
When the agent reads a block it takes it as it is. -/
def Accesses : Action → Prop
  | .writeKeys | .readReply | .writeGradients | .receive | .writeParameters => True
  | _ => False

/-- The loop of `linear_regression.py` and `AgentWork`, with the accesses to memory as they are
made.  The pairs of a push are recorded with the values as floats.  The keys in a message are those
of an `int32`. -/
inductive Step (D : Type) [Doubles D F] (numFeatures : ℕ) :
    MappedChannel F → Action → MappedChannel F → Prop
  | writeKeys {x x' : MappedChannel F} (hw : x.channel.worker = .writeKeys)
      (hbytes : LinearRegression.transferToAgent
        (List.replicate (numFeatures + 1) (Doubles.zero : D))
        (featureKeys numFeatures) x.gradFile = .ok x'.gradFile)
      (hpara : x'.paraFile = x.paraFile)
      (hx' : x'.channel = { x.channel with
        worker := .signalPull
        gradMemory := Shmstruct.ofMemory x'.gradFile.toMemory }) :
      Step D numFeatures x .writeKeys x'
  | readReply {x x' : MappedChannel F} {coef : List D} {keys : List Int}
      (hw : x.channel.worker = .readReply) (hgrad : x'.gradFile = x.gradFile)
      (hbytes : LinearRegression.readFromAgent x.paraFile = .ok (coef, keys, x'.paraFile))
      (hx' : x'.channel = { x.channel with worker := .writeGradients keys }) :
      Step D numFeatures x .readReply x'
  | writeGradients {x x' : MappedChannel F} {keys : List Int} {values : List D}
      (hw : x.channel.worker = .writeGradients keys) (hlen : values.length = keys.length)
      (hbytes : LinearRegression.transferToAgent values keys x.gradFile = .ok x'.gradFile)
      (hpara : x'.paraFile = x.paraFile)
      (hx' : x'.channel = { x.channel with
        worker := .signalPush
        gradMemory := Shmstruct.ofMemory x'.gradFile.toMemory
        written := x.channel.written ++ [keys.zip (values.map Doubles.round)] }) :
      Step D numFeatures x .writeGradients x'
  | writeParameters {x x' : MappedChannel F} {w : Agent.Pulling F}
      (ha : x.channel.agent = .pulling w) (hset : w.serverSet = [])
      (hgrad : x'.gradFile = x.gradFile)
      (hpara : x'.paraFile
        = ⟨w.finish.parameters.writeMemory x.paraFile.toMemory, x.paraFile.pos⟩)
      (hx' : x'.channel = { x.channel with
        agent := .pulled w.finish
        paraMemory := Shmstruct.ofMemory x'.paraFile.toMemory }) :
      Step D numFeatures x .writeParameters x'
  | receive {x x' : MappedChannel F} {w w' : Agent.Pulling F} {m : Option (Message F)}
      (ha : x.channel.agent = .pulling w) (hset : w.serverSet ≠ [])
      (hm : ∀ m' ∈ m, ∀ r ∈ m'.requestMsg, ∀ k ∈ r.keys, Int32Range k)
      (h : w.receive m = .ok w') (hgrad : x'.gradFile = x.gradFile)
      (hpara : x'.paraFile = x.paraFile)
      (hx' : x'.channel = { x.channel with agent := .pulling w' }) :
      Step D numFeatures x .receive x'
  | other {x x' : MappedChannel F} {a : Action} (ha : ¬ Accesses a)
      (h : Channel.Step numFeatures x.channel a x'.channel) (hgrad : x'.gradFile = x.gradFile)
      (hpara : x'.paraFile = x.paraFile) : Step D numFeatures x a x'

/-- The agent has written its block for a pull, and the worker has not read it yet. -/
def Replied (c : Channel F) : Prop :=
  c.paraFifo ≠ [] ∨ c.worker = .readReply ∨ ∃ ag, c.agent = .pulled ag

/-- What is read is in range: the block the agent has written, the pairs it has received, and the
keys the worker has read. -/
structure InRange (c : Channel F) : Prop where
  size : Replied c → c.paraMemory.size ≤ 100
  pulling : ∀ w, c.agent = .pulling w →
    w.cur ≤ 100 ∧ ∀ k ∈ w.agent.parameters.keys, Int32Range k
  computing : ∀ keys, c.worker = .writeGradients keys →
    keys.length ≤ 100 ∧ ∀ k ∈ keys, Int32Range k

section

omit [FloatOps F] [FloatBits F]

/-- It is none of the worker's doing. -/
theorem Replied.of_worker {c : Channel F} {worker : Channel.WorkerPhase} {gradMemory : Shmstruct F}
    {gradFifo : List Int} {written : List (List (Int × F))}
    (h : Replied { c with
      worker := worker, gradMemory := gradMemory, gradFifo := gradFifo, written := written })
    (hw : worker ≠ .readReply) : Replied c :=
  h.imp_right fun h ↦ h.imp_left fun h ↦ absurd h hw

/-- Nor is it when the agent does anything else. -/
theorem Replied.of_agent {c : Channel F} {agent : Channel.AgentPhase F} {gradFifo : List Int}
    {pushed : List (List (Int × F))}
    (h : Replied { c with agent := agent, gradFifo := gradFifo, pushed := pushed })
    (ha : ∀ ag, agent ≠ .pulled ag) : Replied c :=
  h.imp_right fun h ↦ h.imp_right fun ⟨ag, h⟩ ↦ absurd h (ha ag)

theorem inRange_start (ag : Agent F) (gradMemory paraMemory : Shmstruct F) :
    InRange (.start ag gradMemory paraMemory) where
  size := by
    rintro (h | h | ⟨ag', h⟩)
    · exact absurd rfl h
    · cases h
    · cases h
  pulling := fun _ ha ↦ by cases ha
  computing := fun _ hw ↦ by cases hw

/-- The numbers that the agent writes. -/
theorem InRange.int32s {c : Channel F} (h : InRange c) {w : Agent.Pulling F}
    (ha : c.agent = .pulling w) : w.finish.parameters.Int32s := by
  obtain ⟨hcur, hkeys⟩ := h.pulling w ha
  exact ⟨⟨by simp only [Agent.Pulling.finish]; omega, by simp only [Agent.Pulling.finish]; omega⟩,
    hkeys⟩

/-- The agent begins with the keys that it has read. -/
theorem workPull_keys {ag : Agent F} {g : Shmstruct F} {w : Agent.Pulling F}
    {sent : List (Sent F)} (h : ag.workPull g = .ok (w, sent)) :
    w.cur = 0 ∧ ∀ k ∈ w.agent.parameters.keys, k ∈ g.keys := by
  rw [Agent.workPull, Agent.sendPull, Checked.bind_eq_ok] at h
  obtain ⟨g', hsort, h⟩ := h
  rw [Checked.bind_eq_ok] at h
  obtain ⟨blocks, -, h⟩ := h
  cases h
  refine ⟨rfl, fun k hk ↦ ?_⟩
  rw [Shmstruct.sortKeys] at hsort
  split at hsort
  · cases hsort
    rcases Checked.mem_write hk with hk | hk
    · exact hk
    · exact List.mem_of_mem_take ((List.mem_insertionSort _).1 hk)
  · cases hsort

theorem check_requestMsg {w : Agent.Pulling F} {m : Message F} {r : RequestMessage F}
    (h : w.check m = some r) : m.requestMsg = some r := by
  rw [Agent.Pulling.check] at h
  split at h
  · cases h
  · split at h
    · cases h
    · rename_i request hrequest
      split at h
      · cases h
      · split at h
        · cases h
        · split at h
          · cases h
          · rw [hrequest, h]

/-- Only the keys of the message are new, and the pairs fit. -/
theorem receive_keys {w w' : Agent.Pulling F} {m : Option (Message F)}
    (h : w.receive m = .ok w') (hcur : w.cur ≤ 100) :
    w'.cur ≤ 100 ∧ ∀ k ∈ w'.agent.parameters.keys, k ∈ w.agent.parameters.keys ∨
      ∃ m' ∈ m, ∃ r ∈ m'.requestMsg, k ∈ r.keys := by
  cases m with
  | none =>
    cases h
    exact ⟨hcur, fun k hk ↦ .inl hk⟩
  | some m =>
    rw [Agent.Pulling.receive] at h
    split at h
    · cases h
      exact ⟨hcur, fun k hk ↦ .inl hk⟩
    · rename_i request hcheck
      rw [Checked.bind_eq_ok] at h
      obtain ⟨ps, hps, h⟩ := h
      rw [Checked.bind_eq_ok] at h
      obtain ⟨g, hg, h⟩ := h
      cases h
      rw [Shmstruct.writePairs] at hg
      split at hg
      · cases hg
        refine ⟨by assumption, fun k hk ↦ ?_⟩
        rcases Checked.mem_write hk with hk | hk
        · exact .inl hk
        · rw [Checked.map_fst_of_zip hps] at hk
          exact .inr ⟨m, rfl, request, check_requestMsg hcheck, hk⟩
      · cases hg

end

@[simp] theorem length_featureKeys (numFeatures : ℕ) :
    (featureKeys numFeatures).length = numFeatures + 1 := by
  simp [featureKeys]

/-- A list of natural numbers read as one of integers. -/
theorem featureKeys_eq (numFeatures : ℕ) :
    featureKeys numFeatures = (List.range (numFeatures + 1)).map fun i ↦ (i : Int) := by
  rw [featureKeys, List.map_id', List.map_eq_flatMap]
  rfl

omit [FloatBits F] in
theorem round_zeros (n : ℕ) : (List.replicate n (Doubles.zero : D)).map Doubles.round
    = List.replicate n (FloatOps.zero : F) := by
  rw [List.map_replicate, Doubles.round_zero]

/-- A step with bytes is the step without. -/
theorem Step.refines {numFeatures : ℕ} {x x' : MappedChannel F} {a : Action}
    (hstep : Step D numFeatures x a x') (h : InRange x.channel) :
    Channel.Step numFeatures x.channel a x'.channel := by
  cases hstep with
  | writeKeys hw hbytes hpara hx' =>
    have hblock := LinearRegression.transferToAgent_refines (by simp) hbytes
    rw [← x.gradMemory_eq, featureKeys_eq, round_zeros] at hblock
    rw [hx']
    exact .writeKeys hw hblock
  | @readReply _ coef keys hw hgrad hbytes hx' =>
    obtain ⟨m', hm', -⟩ := LinearRegression.readFromAgent_ok (D := D) (F := F)
      (LinearRegression.readFromAgent_eq_ok hbytes)
    rw [hbytes, ← x.paraMemory_eq] at hm'
    cases hm'
    rw [hx']
    exact .readReply hw
  | writeGradients hw hlen hbytes hpara hx' =>
    have hblock := LinearRegression.transferToAgent_refines hlen hbytes
    rw [← x.gradMemory_eq] at hblock
    rw [hx']
    exact .writeGradients hw ((List.length_map _).trans hlen) hblock
  | writeParameters ha hset hgrad hpara hx' =>
    have hblock := Shmstruct.ofMemory_writeMemory (h.int32s ha) x.paraFile.toMemory
    rw [hx', hpara, hblock]
    exact .writeParameters ha hset
  | receive ha hset hm hreceive hgrad hpara hx' =>
    rw [hx']
    exact .receive ha hset hreceive
  | other ha hstep hgrad hpara => exact hstep

omit [FloatBits F] in
/-- The other actions do not matter. -/
theorem InRange.other {numFeatures : ℕ} {c c' : Channel F} {a : Action}
    (hstep : Channel.Step numFeatures c a c') (ha : ¬ Accesses a)
    (hkeys : ∀ k ∈ c.gradMemory.keys, Int32Range k) (h : InRange c) : InRange c' := by
  cases hstep with
  | writeKeys | readReply | writeGradients | receive | writeParameters => exact absurd trivial ha
  | signalPull | signalPush | finish =>
    exact ⟨fun hr ↦ h.size (hr.of_worker (by simp)), h.pulling, fun _ hw ↦ by cases hw⟩
  | waitReply hw hf =>
    refine ⟨fun _ ↦ h.size (.inl ?_), h.pulling, fun _ hw ↦ by cases hw⟩
    rw [hf]
    exact List.cons_ne_nil _ _
  | wait | reconfigurate | readGradients | push | terminate =>
    exact ⟨fun hr ↦ h.size (hr.of_agent (by simp)), (fun _ ha ↦ by cases ha), h.computing⟩
  | reply hpulled =>
    exact ⟨fun _ ↦ h.size (.inr (.inr ⟨_, hpulled⟩)), (fun _ ha ↦ by cases ha), h.computing⟩
  | readKeys ha hpull =>
    refine ⟨fun hr ↦ h.size (hr.of_agent (by simp)), fun w hw ↦ ?_, h.computing⟩
    cases hw
    obtain ⟨hcur, hmem⟩ := workPull_keys hpull
    exact ⟨by omega, fun k hk ↦ hkeys k (hmem k hk)⟩

theorem Step.inRange {numFeatures : ℕ} {x x' : MappedChannel F} {a : Action}
    (hstep : Step D numFeatures x a x') (h : InRange x.channel) : InRange x'.channel := by
  cases hstep with
  | writeKeys hw hbytes hpara hx' =>
    rw [hx']
    exact ⟨fun hr ↦ h.size (hr.of_worker (by simp)), h.pulling, fun _ hw ↦ by cases hw⟩
  | @readReply _ coef keys hw hgrad hbytes hx' =>
    obtain ⟨m', hm', -⟩ := LinearRegression.readFromAgent_ok (D := D) (F := F)
      (LinearRegression.readFromAgent_eq_ok hbytes)
    rw [hbytes, ← x.paraMemory_eq] at hm'
    cases hm'
    rw [hx']
    refine ⟨fun hr ↦ h.size (hr.of_worker (by simp)), h.pulling, fun keys hkeys ↦ ?_⟩
    cases hkeys
    refine ⟨?_, fun k hk ↦ ?_⟩
    · rw [Shmstruct.usedKeys, List.length_take, x.channel.paraMemory.length_keys]
      exact Nat.min_le_right _ _
    · have hmem := List.mem_of_mem_take hk
      rw [x.paraMemory_eq] at hmem
      exact (Shmstruct.int32s_ofMemory _).keys k hmem
  | writeGradients hw hlen hbytes hpara hx' =>
    rw [hx']
    exact ⟨fun hr ↦ h.size (hr.of_worker (by simp)), h.pulling, fun _ hw ↦ by cases hw⟩
  | writeParameters ha hset hgrad hpara hx' =>
    have hblock := Shmstruct.ofMemory_writeMemory (h.int32s ha) x.paraFile.toMemory
    rw [hx', hpara, hblock]
    obtain ⟨hcur, -⟩ := h.pulling _ ha
    refine ⟨fun _ ↦ ?_, (fun _ ha ↦ by cases ha), h.computing⟩
    simp only [Agent.Pulling.finish]
    omega
  | receive ha hset hm hreceive hgrad hpara hx' =>
    rw [hx']
    obtain ⟨hcur, hkeys⟩ := h.pulling _ ha
    obtain ⟨hcur', hkeys'⟩ := receive_keys hreceive hcur
    refine ⟨fun hr ↦ h.size (hr.of_agent (by simp)), fun w hw ↦ ?_, h.computing⟩
    cases hw
    refine ⟨hcur', fun k hk ↦ ?_⟩
    rcases hkeys' k hk with hk | ⟨m', hm', r, hr, hk⟩
    · exact hkeys k hk
    · exact hm m' hm' r hr k hk
  | other ha hstep hgrad hpara =>
    refine h.other hstep ha fun k hk ↦ ?_
    rw [x.gradMemory_eq] at hk
    exact (Shmstruct.int32s_ofMemory _).keys k hk

/-! ### Runs -/

/-- The worker can ask for its weights when they are at most a hundred. -/
theorem exists_writeKeys_iff {numFeatures : ℕ} {x : MappedChannel F}
    (hw : x.channel.worker = .writeKeys) :
    (∃ x', Step D numFeatures x .writeKeys x') ↔ numFeatures + 1 ≤ 100 := by
  refine ⟨fun ⟨x', hstep⟩ ↦ ?_, fun hle ↦ ?_⟩
  · cases hstep with
    | writeKeys hw hbytes hpara hx' =>
      have hlen := (LinearRegression.transferToAgent_eq_ok hbytes).1
      rwa [length_featureKeys] at hlen
    | other ha => exact absurd trivial ha
  · have hkeys : ∀ k ∈ featureKeys numFeatures, Int32Range k := by
      intro k hk
      obtain ⟨i, hi, rfl⟩ := List.mem_map.1 hk
      rw [List.mem_range] at hi
      exact ⟨by omega, by omega⟩
    obtain ⟨w', hw', -⟩ := LinearRegression.transferToAgent_ok x.gradFile
      (List.replicate (numFeatures + 1) (Doubles.zero : D)) hkeys
      (by rwa [List.length_replicate]) (by rwa [length_featureKeys])
    exact ⟨{
      channel := { x.channel with
        worker := .signalPull
        gradMemory := Shmstruct.ofMemory w'.toMemory }
      gradFile := w'
      paraFile := x.paraFile
      gradMemory_eq := rfl
      paraMemory_eq := x.paraMemory_eq }, .writeKeys hw hw' rfl rfl⟩

/-- It can read the reply. -/
theorem exists_readReply {numFeatures : ℕ} {x : MappedChannel F}
    (hw : x.channel.worker = .readReply) (h : InRange x.channel) :
    ∃ x', Step D numFeatures x .readReply x' := by
  have hsize := h.size (.inr (.inl hw))
  rw [x.paraMemory_eq] at hsize
  obtain ⟨m', hm', hwords⟩ := LinearRegression.readFromAgent_ok (D := D) hsize
  have hmemory : m'.toMemory = x.paraFile.toMemory :=
    Memory.ext (by rw [← m'.bytesOf_words, hwords, Memory.bytesOf_words])
  exact ⟨{
    channel := { x.channel with
      worker := .writeGradients (Shmstruct.ofMemory x.paraFile.toMemory : Shmstruct F).usedKeys }
    gradFile := x.gradFile
    paraFile := m'
    gradMemory_eq := x.gradMemory_eq
    paraMemory_eq := by rw [hmemory]; exact x.paraMemory_eq }, .readReply hw rfl hm' rfl⟩

/-- It can write gradients for the keys it has read. -/
theorem exists_writeGradients {numFeatures : ℕ} {x : MappedChannel F} {keys : List Int}
    {values : List D} (hw : x.channel.worker = .writeGradients keys) (h : InRange x.channel)
    (hlen : values.length = keys.length) : ∃ x', Step D numFeatures x .writeGradients x' ∧
      LinearRegression.transferToAgent values keys x.gradFile = .ok x'.gradFile := by
  obtain ⟨hle, hkeys⟩ := h.computing keys hw
  obtain ⟨w', hw', -⟩ := LinearRegression.transferToAgent_ok x.gradFile values hkeys
    (by omega) hle
  exact ⟨{
    channel := { x.channel with
      worker := .signalPush
      gradMemory := Shmstruct.ofMemory w'.toMemory
      written := x.channel.written ++ [keys.zip (values.map Doubles.round)] }
    gradFile := w'
    paraFile := x.paraFile
    gradMemory_eq := rfl
    paraMemory_eq := x.paraMemory_eq }, .writeGradients hw hlen hw' rfl rfl, hw'⟩

/-- **The bytes do not matter.**  Every run of a worker and its agent with the bytes that they share
is one without, whatever else is asked of its steps, and whatever the memory holds at the beginning.
The worker asks for its weights if they are at most a hundred, and then no access to memory fails:
it can read every reply, and write every gradient. -/
theorem bytes_refine_blocks {numFeatures : ℕ} {P : Channel F → Action → Prop} {ag : Agent F}
    {gradFile paraFile : File 201} {x : MappedChannel F}
    (hrun : Relation.ReflTransGen (fun x x' ↦ ∃ a, P x.channel a ∧ Step D numFeatures x a x')
      (start ag gradFile paraFile) x) :
    Relation.ReflTransGen (fun c c' ↦ ∃ a, P c a ∧ Channel.Step numFeatures c a c')
      (.start ag (Shmstruct.ofMemory gradFile.toMemory) (Shmstruct.ofMemory paraFile.toMemory))
      x.channel ∧
    (x.channel.worker = .writeKeys →
      ((∃ x', Step D numFeatures x .writeKeys x') ↔ numFeatures + 1 ≤ 100)) ∧
    (x.channel.worker = .readReply → ∃ x', Step D numFeatures x .readReply x') ∧
    ∀ keys (values : List D), x.channel.worker = .writeGradients keys →
      values.length = keys.length → ∃ x', Step D numFeatures x .writeGradients x' ∧
        LinearRegression.transferToAgent values keys x.gradFile = .ok x'.gradFile := by
  have hboth : InRange x.channel ∧
      Relation.ReflTransGen (fun c c' ↦ ∃ a, P c a ∧ Channel.Step numFeatures c a c')
        (.start ag (Shmstruct.ofMemory gradFile.toMemory)
          (Shmstruct.ofMemory paraFile.toMemory)) x.channel := by
    induction hrun with
    | refl => exact ⟨inRange_start _ _ _, .refl⟩
    | tail _ hstep ih =>
      obtain ⟨a, hP, hstep⟩ := hstep
      exact ⟨hstep.inRange ih.1, ih.2.tail ⟨a, hP, hstep.refines ih.1⟩⟩
  obtain ⟨hrange, hchannel⟩ := hboth
  exact ⟨hchannel, exists_writeKeys_iff, fun hw ↦ exists_readReply hw hrange,
    fun keys values hw hlen ↦ exists_writeGradients hw hrange hlen⟩

end MappedChannel

/-- The floats `0.0` and `1.0`, where no others occur. -/
inductive ZeroOne
  | zero
  | one
deriving DecidableEq

namespace ZeroOne

instance : FloatOps ZeroOne where
  zero := zero
  add x y := if x = zero then y else x
  div x _ := x
  ofInt n := if n = 0 then zero else one

instance : FloatBits ZeroOne where
  toBits x := if x = zero then 0x00000000#32 else 0x3f800000#32
  ofBits w := if w = 0x3f800000#32 then one else zero
  ofBits_toBits x := by
    cases x with
    | zero => rfl
    | one => rfl

instance : Doubles ZeroOne ZeroOne where
  zero := zero
  round := id
  widen := id
  round_zero := rfl

end ZeroOne

namespace MappedChannel

open Channel (Action)

/-- Memory that has just been made. -/
def blank : File 201 := ⟨.ofWords (List.replicate 201 0) List.length_replicate, 0⟩

/-- A worker with one feature asks for its two weights. -/
theorem bytes_refine_blocks_asked : ∃ (ag : Agent ZeroOne) (x : MappedChannel ZeroOne),
    Agent.initializeAgent "10.0.0.1:80" 2 Channel.smallConfig (Shmstruct.ofMemory blank.toMemory)
      (Shmstruct.ofMemory blank.toMemory) = .ok ag ∧
    x.channel.worker = .waitReply ∧ x.channel.gradFifo = [0] ∧
    x.channel.gradMemory.pairs = [(0, .zero), (1, .zero)] ∧
    Relation.ReflTransGen (fun c c' ↦ ∃ a, True ∧ Channel.Step 1 c a c')
      (.start ag (Shmstruct.ofMemory blank.toMemory) (Shmstruct.ofMemory blank.toMemory))
      x.channel := by
  obtain ⟨ag, hag⟩ : ∃ ag, Agent.initializeAgent "10.0.0.1:80" 2 Channel.smallConfig
      (Shmstruct.ofMemory blank.toMemory : Shmstruct ZeroOne)
      (Shmstruct.ofMemory blank.toMemory) = .ok ag := ⟨_, rfl⟩
  obtain ⟨w', hw', hblock⟩ := LinearRegression.transferToAgent_ok blank
    (List.replicate 2 (Doubles.zero : ZeroOne)) (show ∀ k ∈ featureKeys 1, Int32Range k by decide)
    (by decide) (by decide)
  have hpairs := Channel.pairs_transferToAgent (by decide) hblock
  let x₁ : MappedChannel ZeroOne := {
    channel := { (start ag blank blank).channel with
      worker := .signalPull
      gradMemory := Shmstruct.ofMemory w'.toMemory }
    gradFile := w'
    paraFile := blank
    gradMemory_eq := rfl
    paraMemory_eq := rfl }
  let x₂ : MappedChannel ZeroOne := { x₁ with
    channel := { x₁.channel with worker := .waitReply, gradFifo := [0] } }
  have hfirst : Step ZeroOne 1 (start ag blank blank) .writeKeys x₁ := .writeKeys rfl hw' rfl rfl
  have hsecond : Step ZeroOne 1 x₁ .signalPull x₂ :=
    .other id (.signalPull rfl) rfl rfl
  have hrun : Relation.ReflTransGen
      (fun x x' : MappedChannel ZeroOne ↦ ∃ a, True ∧ Step ZeroOne 1 x a x')
      (start ag blank blank) x₂ :=
    .tail (.single ⟨_, trivial, hfirst⟩) ⟨_, trivial, hsecond⟩
  exact ⟨ag, x₂, hag, rfl, rfl, hpairs, (bytes_refine_blocks hrun).1⟩

end MappedChannel

end Rpscc
