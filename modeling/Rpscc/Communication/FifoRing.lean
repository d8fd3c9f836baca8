import Mathlib.Data.Int.ModEq
import Mathlib.Logic.Function.Basic
import Rpscc.Lib.Checked

/-!
# The ring between a communicator and its thread

`FifoRing` is an array of slots with two wrapping indices and two semaphores.  `Add` waits for an
empty slot, claims the next index under a mutex, copies the message and its length into the slot,
and signals a full one; `Fetch` does the same from the other side.  The copying happens outside the
mutexes, so what another thread can see between any two of these steps matters: each of them is a
transition of `RingNet.Step`, and a thread that is in the middle of a call remembers where it is in
an `AddPhase` or a `FetchPhase`.  There may be any number of threads that add; one fetches.
-/

set_option autoImplicit false

namespace Rpscc

/-- The bytes of a message. -/
abbrev Bytes := List UInt8

/-- `class FifoRing`.  A slot is a null pointer or a block of bytes. -/
structure FifoRing where
  ringSize : Int
  ring : List (Option Bytes)
  dataSizes : List Int
  producePoint : Int
  consumePoint : Int
  emptySem : ℕ
  fullSem : ℕ
deriving DecidableEq, Repr

namespace FifoRing

/-! ## The steps of `Add` and `Fetch` -/

/-- `memset` of the first `k` elements of an array, which has to have as many. -/
def clear {α : Type} (zero : α) (k : ℕ) (xs : List α) : Except Fault (List α) :=
  if k ≤ xs.length then .ok (List.replicate k zero ++ xs.drop k) else .error .outOfRange

/-- `FifoRing::Initialize`.  The arrays come from `new`, so what they hold is an argument.  The
`memset` of `ring_` is given the size of a pointer, and so is that of `data_sizes_`: the one clears
one slot, and the other two lengths. -/
def initializeRing (ringSize : Int) (ring : List (Option Bytes)) (dataSizes : List Int) :
    Except Fault FifoRing := do
  let ring ← clear none 1 ring
  let dataSizes ← clear 0 2 dataSizes
  .ok {
    ringSize := ringSize
    ring := ring
    dataSizes := dataSizes
    producePoint := 0
    consumePoint := 0
    emptySem := ringSize.toNat
    fullSem := 0 }

/-- `sem_wait(&empty_sem_)`, which blocks at zero. -/
def waitEmpty (r : FifoRing) : Option FifoRing :=
  if r.emptySem = 0 then none else some { r with emptySem := r.emptySem - 1 }

/-- `index = produce_point_`, and on to the next. -/
def claimProduce (r : FifoRing) : Except Fault (FifoRing × Int) := do
  let next ← Checked.tmod (r.producePoint + 1) r.ringSize
  .ok ({ r with producePoint := next }, r.producePoint)

/-- Copy the message and its length into the slot. -/
def store (r : FifoRing) (index : Int) (message : Bytes) : Except Fault FifoRing := do
  let _ ← Checked.get r.ring index
  let _ ← Checked.get r.dataSizes index
  .ok { r with
    ring := r.ring.set index.toNat (some message)
    dataSizes := r.dataSizes.set index.toNat message.length }

/-- `sem_post(&full_sem_)`. -/
def postFull (r : FifoRing) : FifoRing := { r with fullSem := r.fullSem + 1 }

/-- `sem_wait(&full_sem_)`, which blocks at zero. -/
def waitFull (r : FifoRing) : Option FifoRing :=
  if r.fullSem = 0 then none else some { r with fullSem := r.fullSem - 1 }

/-- `index = consume_point_`, and on to the next. -/
def claimConsume (r : FifoRing) : Except Fault (FifoRing × Int) := do
  let next ← Checked.tmod (r.consumePoint + 1) r.ringSize
  .ok ({ r with consumePoint := next }, r.consumePoint)

/-- Copy the message out of the slot and clear it.  From a null pointer `Fetch` returns `-1`, here
`none`. -/
def take (r : FifoRing) (index : Int) : Except Fault (FifoRing × Option (Int × Bytes)) := do
  let slot ← Checked.get r.ring index
  match slot with
  | none => .ok (r, none)
  | some block =>
    let len ← Checked.get r.dataSizes index
    if 0 ≤ len ∧ len ≤ block.length then
      .ok ({ r with ring := r.ring.set index.toNat none }, some (len, block.take len.toNat))
    else
      .error .outOfRange

/-- `sem_post(&empty_sem_)`. -/
def postEmpty (r : FifoRing) : FifoRing := { r with emptySem := r.emptySem + 1 }

/-- The ring has been initialised, whatever was in its arrays. -/
def Fresh (ringSize : Int) (r : FifoRing) : Prop :=
  ∃ (ring : List (Option Bytes)) (dataSizes : List Int), (ring.length : Int) = ringSize ∧
    (dataSizes.length : Int) = ringSize ∧ initializeRing ringSize ring dataSizes = .ok r

end FifoRing

/-! ## What they do -/

namespace FifoRing

@[simp] theorem clear_eq_ok_iff {α : Type} {zero : α} {k : ℕ} {xs ys : List α} :
    clear zero k xs = .ok ys ↔ k ≤ xs.length ∧ List.replicate k zero ++ xs.drop k = ys := by
  rw [clear]
  split
  · rename_i hle
    rw [Except.ok.injEq]
    exact (and_iff_right hle).symm
  · rename_i hlt
    simp [hlt]

/-- **A ring needs two slots**, because two lengths are cleared. -/
theorem initializeRing_ok_iff {ringSize : Int} {ring : List (Option Bytes)} {dataSizes : List Int}
    (hring : (ring.length : Int) = ringSize) (hsizes : (dataSizes.length : Int) = ringSize) :
    (∃ r, initializeRing ringSize ring dataSizes = .ok r) ↔ 2 ≤ ringSize := by
  simp only [initializeRing, Checked.bind_eq_ok, clear_eq_ok_iff]
  constructor
  · rintro ⟨r, -, -, -, ⟨htwo, -⟩, -⟩
    omega
  · exact fun htwo ↦ ⟨_, _, ⟨by omega, rfl⟩, _, ⟨by omega, rfl⟩, rfl⟩

/-- What `Initialize` leaves. -/
structure Blank (N : ℕ) (r : FifoRing) : Prop where
  two_le : 2 ≤ N
  ringSize : r.ringSize = N
  length_ring : r.ring.length = N
  length_dataSizes : r.dataSizes.length = N
  producePoint : r.producePoint = 0
  consumePoint : r.consumePoint = 0
  emptySem : r.emptySem = N
  fullSem : r.fullSem = 0

theorem Fresh.blank {N : ℕ} {r : FifoRing} (h : r.Fresh N) : r.Blank N := by
  obtain ⟨ring, dataSizes, hring, hsizes, hinit⟩ := h
  rw [initializeRing, Checked.bind_eq_ok] at hinit
  obtain ⟨ring', hring', hinit⟩ := hinit
  rw [Checked.bind_eq_ok] at hinit
  obtain ⟨sizes', hsizes', hinit⟩ := hinit
  cases hinit
  obtain ⟨-, rfl⟩ := clear_eq_ok_iff.1 hring'
  obtain ⟨htwo, rfl⟩ := clear_eq_ok_iff.1 hsizes'
  have hlen : ∀ {α : Type} (zero : α) (k : ℕ) (xs : List α), k ≤ xs.length →
      (List.replicate k zero ++ xs.drop k).length = xs.length := by
    intro α zero k xs hle
    rw [List.length_append, List.length_replicate, List.length_drop]
    omega
  refine ⟨by omega, rfl, ?_, ?_, rfl, rfl, Int.toNat_natCast N, rfl⟩
  · show (List.replicate 1 none ++ ring.drop 1).length = N
    rw [hlen none 1 ring (by omega)]
    omega
  · show (List.replicate 2 0 ++ dataSizes.drop 2).length = N
    rw [hlen 0 2 dataSizes htwo]
    omega

/-- Two messages less than a ring apart are in different slots. -/
theorem mod_ne_mod {N j k : ℕ} (hlt : j < k) (hle : k < j + N) : j % N ≠ k % N := by
  intro h
  have hdvd : N ∣ k - j := (Nat.modEq_iff_dvd' hlt.le).1 h
  have := Nat.le_of_dvd (by omega) hdvd
  omega

variable {r r' : FifoRing} {N : ℕ}

theorem waitEmpty_eq_some (h : r.waitEmpty = some r') :
    0 < r.emptySem ∧ r' = { r with emptySem := r.emptySem - 1 } := by
  rw [waitEmpty] at h
  split at h
  · simp at h
  · cases h
    exact ⟨by omega, rfl⟩

theorem waitFull_eq_some (h : r.waitFull = some r') :
    0 < r.fullSem ∧ r' = { r with fullSem := r.fullSem - 1 } := by
  rw [waitFull] at h
  split at h
  · simp at h
  · cases h
    exact ⟨by omega, rfl⟩

/-- The next index after `c % N`. -/
theorem tmod_succ (hN : 0 < N) (c : ℕ) :
    Checked.tmod (((c % N : ℕ) : Int) + 1) N = .ok (((c + 1) % N : ℕ) : Int) := by
  rw [Checked.tmod_of_nonneg (by omega) (by omega)]
  congr 1
  rw [← Nat.cast_one, ← Nat.cast_add, ← Int.natCast_mod, Nat.mod_add_mod]

theorem claimProduce_eq (hN : 0 < N) (hsize : r.ringSize = N) {c : ℕ}
    (hpoint : r.producePoint = (c % N : ℕ)) :
    r.claimProduce = .ok ({ r with producePoint := ((c + 1) % N : ℕ) }, ((c % N : ℕ) : Int)) := by
  rw [claimProduce, hsize, hpoint, tmod_succ hN, Checked.ok_bind]

theorem claimConsume_eq (hN : 0 < N) (hsize : r.ringSize = N) {c : ℕ}
    (hpoint : r.consumePoint = (c % N : ℕ)) :
    r.claimConsume = .ok ({ r with consumePoint := ((c + 1) % N : ℕ) }, ((c % N : ℕ) : Int)) := by
  rw [claimConsume, hsize, hpoint, tmod_succ hN, Checked.ok_bind]

theorem store_eq {i : ℕ} (hring : i < r.ring.length) (hsizes : i < r.dataSizes.length)
    (message : Bytes) :
    r.store i message = .ok { r with
      ring := r.ring.set i (some message)
      dataSizes := r.dataSizes.set i message.length } := by
  rw [store, Checked.get_natCast (List.getElem?_eq_getElem hring), Checked.ok_bind,
    Checked.get_natCast (List.getElem?_eq_getElem hsizes), Checked.ok_bind, Int.toNat_natCast]

theorem take_eq {i : ℕ} {m : Bytes} (hslot : r.ring[i]? = some (some m))
    (hsize : r.dataSizes[i]? = some (m.length : Int)) :
    r.take i = .ok ({ r with ring := r.ring.set i none }, some ((m.length : Int), m)) := by
  rw [take, Checked.get_natCast hslot, Checked.ok_bind]
  simp only [Checked.get_natCast hsize, Checked.ok_bind, Int.toNat_natCast, List.take_length]
  rw [if_pos ⟨by omega, le_refl _⟩]

end FifoRing

/-! ## Threads -/

/-- Where a thread is in `Add`. -/
inductive AddPhase
  | idle
  | waited (message : Bytes)
  | claimed (message : Bytes) (index : Int)
  | stored
deriving DecidableEq, Repr

/-- Where the other thread is in `Fetch`. -/
inductive FetchPhase
  | idle
  | waited
  | claimed (index : Int)
  | taken (message : Int × Bytes)
deriving DecidableEq, Repr

/-- A ring, the threads that add to it, and the one that fetches.  `added` are the messages in the
order in which their slots were claimed, `fetched` what the calls of `Fetch` returned. -/
structure RingNet (P : Type) where
  ring : FifoRing
  producer : P → AddPhase
  consumer : FetchPhase
  added : List Bytes
  fetched : List (Option (Int × Bytes))

namespace RingNet

variable {P : Type}

/-- Nobody has called anything yet. -/
def start (P : Type) (r : FifoRing) : RingNet P where
  ring := r
  producer := fun _ ↦ .idle
  consumer := .idle
  added := []
  fetched := []

/-- One step of one of the threads. -/
inductive Step [DecidableEq P] : RingNet P → RingNet P → Prop
  | waitEmpty {n : RingNet P} {p : P} {r : FifoRing} (message : Bytes)
      (hp : n.producer p = .idle) (hr : n.ring.waitEmpty = some r) :
      Step n { n with ring := r, producer := Function.update n.producer p (.waited message) }
  | claimProduce {n : RingNet P} {p : P} {message : Bytes} {r : FifoRing} {index : Int}
      (hp : n.producer p = .waited message) (hr : n.ring.claimProduce = .ok (r, index)) :
      Step n { n with
        ring := r
        producer := Function.update n.producer p (.claimed message index)
        added := n.added ++ [message] }
  | store {n : RingNet P} {p : P} {message : Bytes} {index : Int} {r : FifoRing}
      (hp : n.producer p = .claimed message index) (hr : n.ring.store index message = .ok r) :
      Step n { n with ring := r, producer := Function.update n.producer p .stored }
  | postFull {n : RingNet P} {p : P} (hp : n.producer p = .stored) :
      Step n { n with ring := n.ring.postFull, producer := Function.update n.producer p .idle }
  | waitFull {n : RingNet P} {r : FifoRing} (hc : n.consumer = .idle)
      (hr : n.ring.waitFull = some r) :
      Step n { n with ring := r, consumer := .waited }
  | claimConsume {n : RingNet P} {r : FifoRing} {index : Int} (hc : n.consumer = .waited)
      (hr : n.ring.claimConsume = .ok (r, index)) :
      Step n { n with ring := r, consumer := .claimed index }
  | take {n : RingNet P} {index : Int} {r : FifoRing} {message : Int × Bytes}
      (hc : n.consumer = .claimed index) (hr : n.ring.take index = .ok (r, some message)) :
      Step n { n with ring := r, consumer := .taken message }
  | fail {n : RingNet P} {index : Int} {r : FifoRing} (hc : n.consumer = .claimed index)
      (hr : n.ring.take index = .ok (r, none)) :
      Step n { n with ring := r, consumer := .idle, fetched := n.fetched ++ [none] }
  | postEmpty {n : RingNet P} {message : Int × Bytes} (hc : n.consumer = .taken message) :
      Step n { n with
        ring := n.ring.postEmpty
        consumer := .idle
        fetched := n.fetched ++ [some message] }

end RingNet

/-! ## How far a call has got -/

/-- Whether the call has passed its semaphore without having claimed an index. -/
def AddPhase.begun : AddPhase → ℕ
  | .waited _ => 1
  | .idle | .claimed _ _ | .stored => 0

/-- Whether the call has claimed an index without having stored its message. -/
def AddPhase.unstored : AddPhase → ℕ
  | .claimed _ _ => 1
  | .idle | .waited _ | .stored => 0

/-- Whether the call has claimed an index without having signalled it. -/
def AddPhase.unposted : AddPhase → ℕ
  | .claimed _ _ | .stored => 1
  | .idle | .waited _ => 0

/-- Whether the call has passed its semaphore. -/
def FetchPhase.begun : FetchPhase → ℕ
  | .waited | .claimed _ | .taken _ => 1
  | .idle => 0

/-- Whether the call has claimed an index. -/
def FetchPhase.claims : FetchPhase → ℕ
  | .claimed _ | .taken _ => 1
  | .idle | .waited => 0

/-- Whether the call has taken its message. -/
def FetchPhase.takes : FetchPhase → ℕ
  | .taken _ => 1
  | .idle | .waited | .claimed _ => 0

theorem AddPhase.unstored_le : ∀ p : AddPhase, p.unstored ≤ p.unposted ∧ p.unposted ≤ 1
  | .idle | .waited _ | .claimed _ _ | .stored => by simp [unstored, unposted]

theorem FetchPhase.takes_le : ∀ p : FetchPhase, p.takes ≤ p.claims ∧ p.claims ≤ p.begun
  | .idle | .waited | .claimed _ | .taken _ => by simp [takes, claims, begun]

end Rpscc
