import Mathlib.Logic.Function.Basic
import Mathlib.Logic.Relation
import Rpscc.Communication.FifoRing

/-!
# Several receivers in one process

A node that is sent requests and heartbeats has a communicator for each, and each of those runs
`Produce` in a thread of its own: receive a message from the socket, add it to the ring, and again.
The buffer a message is received into and its length are `static` variables of `Produce`, so there
is one of each in the process, for all the threads.

A thread that receives while another one has received and not added yet writes over the message of
the other (`overlapping_receive_mixes`), which then goes to the wrong ring, and twice.  As long as
that does not happen, every ring is given what arrived on its own port (`receivers_unmixed`).
-/

set_option autoImplicit false

namespace Rpscc

open Function (update)

/-- The `static` variables of `ZmqCommunicator::Produce`.  All the receivers of a process are
initialised with the same `buffer_size_`, and `message` has that many bytes. -/
structure ProduceStatics where
  message : Bytes
  len : Int
deriving DecidableEq, Repr

namespace ProduceStatics

/-- `len = zc->send_recv_.Receive(message, zc->buffer_size_)`.  `Receive` puts a zero behind the
message, which has to fit as well. -/
def receive (s : ProduceStatics) (m : Bytes) : Except Fault ProduceStatics :=
  if m.length < s.message.length then
    .ok ⟨Checked.write s.message 0 (m ++ [0]), m.length⟩
  else
    .error .outOfRange

/-- What `zc->fifo_ring_.Add(message, len)` copies. -/
def added (s : ProduceStatics) : Except Fault Bytes :=
  if 0 ≤ s.len ∧ s.len ≤ s.message.length then .ok (s.message.take s.len.toNat)
  else .error .outOfRange

/-- What has been received is what is added next. -/
theorem added_receive {s s' : ProduceStatics} {m : Bytes} (h : s.receive m = .ok s') :
    s'.added = .ok m := by
  rw [receive] at h
  split at h
  · rename_i hlt
    cases h
    have hfits : 0 + (m ++ [0]).length ≤ s.message.length := by
      rw [List.length_append, List.length_singleton]
      omega
    have htake := Checked.take_write s.message (m ++ [0]) (Nat.zero_le _)
    have hm : (Checked.write s.message 0 (m ++ [0])).take m.length = m := by
      have h' := congrArg (List.take m.length) htake
      rwa [List.take_take, List.take_zero, List.nil_append, List.take_left, Nat.min_eq_left] at h'
      rw [List.length_append]
      omega
    have hlen : (m.length : Int) ≤ (Checked.write s.message 0 (m ++ [0])).length := by
      rw [Checked.length_write hfits]
      omega
    rw [added]
    dsimp only
    rw [if_pos ⟨Int.natCast_nonneg _, hlen⟩, Int.toNat_natCast, hm]
  · simp at h

end ProduceStatics

/-- Where a thread is in the loop of `Produce`. -/
inductive ProducePhase
  | receiving
  | adding
deriving DecidableEq, Repr

/-- The threads of the receivers `T` of a process.  `arrived` is what each has received from its
port, `ring` what it has added to its ring. -/
structure ReceiverNet (T : Type) where
  statics : ProduceStatics
  phase : T → ProducePhase
  arrived : T → List Bytes
  ring : T → List Bytes

namespace ReceiverNet

variable {T : Type}

/-- Nothing has arrived yet. -/
def start (T : Type) (s : ProduceStatics) : ReceiverNet T where
  statics := s
  phase := fun _ ↦ .receiving
  arrived := fun _ ↦ []
  ring := fun _ ↦ []

/-- One step of one of the threads. -/
inductive Step [DecidableEq T] : ReceiverNet T → ReceiverNet T → Prop
  | receive {n : ReceiverNet T} {t : T} {m : Bytes} {s : ProduceStatics}
      (ht : n.phase t = .receiving) (hs : n.statics.receive m = .ok s) :
      Step n { n with
        statics := s
        phase := update n.phase t .adding
        arrived := update n.arrived t (n.arrived t ++ [m]) }
  | add {n : ReceiverNet T} {t : T} {m : Bytes} (ht : n.phase t = .adding)
      (hm : n.statics.added = .ok m) :
      Step n { n with
        phase := update n.phase t .receiving
        ring := update n.ring t (n.ring t ++ [m]) }

/-- Every ring has been given what arrived on its own port, up to a message that is on its way. -/
structure Unmixed (n : ReceiverNet T) : Prop where
  receiving : ∀ t, n.phase t = .receiving → n.ring t = n.arrived t
  adding : ∀ t, n.phase t = .adding → ∃ m, n.arrived t = n.ring t ++ [m]

/-- Nobody receives while another thread has received and not added yet, unless it is the same
bytes. -/
def Alone (n n' : ReceiverNet T) : Prop :=
  ∀ t, n.phase t = .receiving → n'.phase t = .adding → ∀ u, n.phase u = .adding →
    n'.statics.added = n.statics.added

/-- A thread that is about to add finds its own message in the buffer. -/
structure Inv (n : ReceiverNet T) : Prop where
  receiving : ∀ t, n.phase t = .receiving → n.ring t = n.arrived t
  adding : ∀ t, n.phase t = .adding →
    ∃ m, n.arrived t = n.ring t ++ [m] ∧ n.statics.added = .ok m

theorem Inv.unmixed {n : ReceiverNet T} (h : Inv n) : n.Unmixed where
  receiving := h.receiving
  adding := fun t ht ↦ (h.adding t ht).imp fun _ hm ↦ hm.1

theorem Inv.start (s : ProduceStatics) : Inv (ReceiverNet.start T s) where
  receiving := fun _ _ ↦ rfl
  adding := fun _ ht ↦ by cases ht

variable [DecidableEq T] {n n' : ReceiverNet T}

theorem Inv.receive (h : Inv n) {t : T} {m : Bytes} {s : ProduceStatics}
    (ht : n.phase t = .receiving) (hs : n.statics.receive m = .ok s)
    (hsame : ∀ u, n.phase u = .adding → s.added = n.statics.added) :
    Inv { n with
      statics := s
      phase := update n.phase t .adding
      arrived := update n.arrived t (n.arrived t ++ [m]) } where
  receiving := by
    intro u hu
    have hut : u ≠ t := fun heq ↦ by simp [heq] at hu
    simp only [Function.update_of_ne hut] at hu ⊢
    exact h.receiving u hu
  adding := by
    intro u hu
    by_cases hut : u = t
    · subst hut
      refine ⟨m, ?_, ProduceStatics.added_receive hs⟩
      simp only [Function.update_self, h.receiving u ht]
    · simp only [Function.update_of_ne hut] at hu ⊢
      obtain ⟨m', hm', hadded⟩ := h.adding u hu
      exact ⟨m', hm', (hsame u hu).trans hadded⟩

theorem Inv.add (h : Inv n) {t : T} {m : Bytes} (ht : n.phase t = .adding)
    (hm : n.statics.added = .ok m) :
    Inv { n with
      phase := update n.phase t .receiving
      ring := update n.ring t (n.ring t ++ [m]) } where
  receiving := by
    intro u hu
    by_cases hut : u = t
    · subst hut
      obtain ⟨m', hm', hadded⟩ := h.adding u ht
      obtain rfl : m = m' := Except.ok.inj (hm.symm.trans hadded)
      simp only [Function.update_self, hm']
    · simp only [Function.update_of_ne hut] at hu ⊢
      exact h.receiving u hu
  adding := by
    intro u hu
    have hut : u ≠ t := fun heq ↦ by simp [heq] at hu
    simp only [Function.update_of_ne hut] at hu ⊢
    exact h.adding u hu

/-- A step keeps the invariant if its thread is alone. -/
theorem Inv.step (h : Inv n) (hs : Step n n') (halone : Alone n n') : Inv n' := by
  cases hs with
  | @receive t m s ht hs =>
    exact h.receive ht hs fun u hu ↦ halone t ht (Function.update_self ..) u hu
  | add ht hm => exact h.add ht hm

/-- **Every ring is given what arrived on its own port**, for any number of receivers and whatever
arrives, as long as no thread receives while another has received and not added yet (or it receives
the same bytes). -/
theorem receivers_unmixed {s : ProduceStatics}
    (hn : Relation.ReflTransGen (fun n n' ↦ Step n n' ∧ Alone n n') (start T s) n) : n.Unmixed := by
  have h : Inv n := by
    induction hn with
    | refl => exact .start s
    | tail _ hs ih => exact ih.step hs.1 hs.2
  exact h.unmixed

/-- If a thread does receive then, the next step may be the one that mixes the messages up. -/
theorem overlapping_receive_mixes (h : Inv n) (hs : Step n n') (hnot : ¬ Alone n n') :
    ∃ n'', Step n' n'' ∧ ¬ n''.Unmixed := by
  simp only [Alone, not_forall] at hnot
  obtain ⟨t, ht, ht', u, hu, hne⟩ := hnot
  cases hs with
  | @receive t₀ m s ht₀ hs =>
    have hadded := ProduceStatics.added_receive hs
    have hut : u ≠ t₀ := fun heq ↦ by rw [heq, ht₀] at hu; cases hu
    obtain ⟨m', hm', hadded'⟩ := h.adding u hu
    refine ⟨_, .add (t := u) ((Function.update_of_ne hut ..).trans hu) hadded, fun hmix ↦ hne ?_⟩
    have heq := hmix.receiving u (Function.update_self ..)
    simp only [Function.update_self, Function.update_of_ne hut, hm', List.append_cancel_left_eq,
      List.cons.injEq, and_true] at heq
    exact hadded.trans (heq ▸ hadded'.symm)
  | @add t₀ m ht₀ hm => exact absurd rfl hne

/-- A request and a heartbeat, one after the other. -/
theorem receivers_unmixed_inTurn : ∃ n : ReceiverNet Bool,
    Relation.ReflTransGen (fun n n' ↦ Step n n' ∧ Alone n n') (start Bool ⟨[0, 0, 0, 0], 0⟩) n ∧
    n.arrived false = [[1, 2]] ∧ n.arrived true = [[3]] ∧ n.ring true = [[3]] ∧ n.Unmixed := by
  have hn : Relation.ReflTransGen (fun n n' ↦ Step n n' ∧ Alone n n')
      (start Bool ⟨[0, 0, 0, 0], 0⟩) _ :=
    Relation.ReflTransGen.refl
      |>.tail ⟨.receive (t := false) (m := [1, 2]) rfl rfl, fun _ _ _ u hu ↦ by cases hu⟩
      |>.tail ⟨.add (t := false) rfl rfl, fun t ht ht' ↦ by cases t <;> cases ht'⟩
      |>.tail ⟨.receive (t := true) (m := [3]) rfl rfl, fun _ _ _ u hu ↦ by cases u <;> cases hu⟩
      |>.tail ⟨.add (t := true) rfl rfl, fun t ht ht' ↦ by cases t <;> cases ht'⟩
  exact ⟨_, hn, rfl, rfl, rfl, receivers_unmixed hn⟩

/-- The heartbeat comes in before the request has been added: it goes to both rings, and the request
to none. -/
theorem heartbeat_overwrites_request : ∃ n : ReceiverNet Bool,
    Relation.ReflTransGen Step (start Bool ⟨[0, 0, 0, 0], 0⟩) n ∧
    (∀ t, n.phase t = .receiving) ∧ n.arrived false = [[1, 2]] ∧ n.arrived true = [[3]] ∧
    n.ring false = [[3]] ∧ n.ring true = [[3]] ∧ ¬ n.Unmixed := by
  have hn : Relation.ReflTransGen Step (start Bool ⟨[0, 0, 0, 0], 0⟩) _ :=
    Relation.ReflTransGen.refl
      |>.tail (.receive (t := false) (m := [1, 2]) rfl rfl)
      |>.tail (.receive (t := true) (m := [3]) rfl rfl)
      |>.tail (.add (t := false) rfl rfl) |>.tail (.add (t := true) rfl rfl)
  refine ⟨_, hn, fun t ↦ by cases t <;> rfl, rfl, rfl, rfl, rfl, fun hmix ↦ ?_⟩
  exact absurd (hmix.receiving false rfl) (by decide)

end ReceiverNet

end Rpscc
