import Mathlib.Algebra.BigOperators.Group.Finset.Basic
import Mathlib.Data.Fintype.Basic
import Rpscc.Communication.Producers
import Rpscc.Lib.BoundedQueue

/-!
# The ring with one thread that adds

With one thread that adds, and one that fetches, the ring is a `BoundedQueue`.  How far the messages
have got is known from the two logs and from where the threads are: the `k`-th message lives in slot
`k % N` from the moment it is stored until it is taken.  `RingNet.Inv` says so, and what
`RingNet.ring_refines_queue_iff` says of every state is read off it.

A single thread that adds cannot be overtaken, so a step keeps what holds of any number of threads
(`RingNet.Shared`).  `Inv` only adds that the message that has been given its slot last is the one
that is about to be stored.
-/

set_option autoImplicit false

namespace Rpscc

namespace RingNet

/-- The number of messages that have been stored. -/
def stored (n : RingNet Unit) : ℕ := n.added.length - (n.producer ()).unstored

/-- The number of messages that have been taken. -/
def taken (n : RingNet Unit) : ℕ := n.fetched.length + n.consumer.takes

/-- What the semaphores, the indices and the slots of a ring of `N` slots have to do with one
another, with one thread that adds. -/
structure Inv (N : ℕ) (n : RingNet Unit) : Prop where
  ringSize : n.ring.ringSize = N
  length_ring : n.ring.ring.length = N
  length_dataSizes : n.ring.dataSizes.length = N
  producePoint : n.ring.producePoint = (n.added.length % N : ℕ)
  consumePoint : n.ring.consumePoint = ((n.fetched.length + n.consumer.claims) % N : ℕ)
  emptySem : n.ring.emptySem + (n.added.length + (n.producer ()).begun) = N + n.fetched.length
  fullSem : n.ring.fullSem + (n.fetched.length + n.consumer.begun) + (n.producer ()).unposted
    = n.added.length
  claimed : ∀ m i, n.producer () = .claimed m i →
    i = ((n.added.length - 1) % N : ℕ) ∧ n.added[n.added.length - 1]? = some m
  consumer : ∀ i, n.consumer = .claimed i → i = (n.fetched.length % N : ℕ)
  taking : ∀ r, n.consumer = .taken r →
    ∃ m : Bytes, n.added[n.fetched.length]? = some m ∧ r = ((m.length : Int), m)
  fetched : ∀ (i : ℕ) r, n.fetched[i]? = some r →
    ∃ m : Bytes, n.added[i]? = some m ∧ r = some ((m.length : Int), m)
  slots : ∀ (k : ℕ) m, n.taken ≤ k → k < n.stored → n.added[k]? = some m →
    n.ring.ring[k % N]? = some (some m) ∧ n.ring.dataSizes[k % N]? = some (m.length : Int)

namespace Inv

variable {N : ℕ} {n n' : RingNet Unit}

/-- The ring never holds more than `N` messages, and has room for one that is about to be
stored. -/
theorem stored_le (h : Inv N n) : n.taken ≤ n.stored ∧
    n.stored + (n.producer ()).unstored ≤ n.taken + N := by
  have hempty := h.emptySem
  have hfull := h.fullSem
  have hadd := (n.producer ()).unstored_le
  have hfetch := n.consumer.takes_le
  rw [stored, taken]
  omega

/-- The index a thread has claimed to store at. -/
theorem claimed_eq (h : Inv N n) {m : Bytes} {i : Int} (hp : n.producer () = .claimed m i) :
    i = (n.stored % N : ℕ) ∧ n.stored + 1 = n.added.length ∧ n.added[n.stored]? = some m := by
  have hfull := h.fullSem
  obtain ⟨hi, hm⟩ := h.claimed m i hp
  have hs : n.stored = n.added.length - 1 := by rw [stored, hp]; rfl
  simp only [hp, AddPhase.unposted] at hfull
  rw [hs]
  exact ⟨hi, by omega, hm⟩

/-- The index a thread has claimed to fetch from is that of the oldest message. -/
theorem consumer_eq (h : Inv N n) {i : Int} (hc : n.consumer = .claimed i) :
    i = (n.taken % N : ℕ) ∧ n.taken < n.stored := by
  have hfull := h.fullSem
  have hadd := (n.producer ()).unstored_le
  have ht : n.taken = n.fetched.length := by rw [taken, hc]; rfl
  refine ⟨by rw [ht]; exact h.consumer i hc, ?_⟩
  rw [ht, stored]
  simp only [hc, FetchPhase.begun] at hfull
  omega

/-- One thread keeps apart what it is about to store from what is about to be read. -/
theorem not_claimed (h : Inv N n) {i : Int} (hc : n.consumer = .claimed i) (p : Unit) (m : Bytes) :
    n.producer p ≠ .claimed m i := by
  intro hp
  have hle := h.stored_le
  obtain ⟨hi, hlt⟩ := h.consumer_eq hc
  obtain ⟨hi', -, -⟩ := h.claimed_eq hp
  simp only [hp, AddPhase.unstored] at hle
  exact FifoRing.mod_ne_mod hlt (by omega) (Int.ofNat_inj.1 (hi.symm.trans hi'))

/-! ### From any number of threads to one -/

theorem shared (h : Inv N n) : Shared N n where
  ringSize := h.ringSize
  length_ring := h.length_ring
  length_dataSizes := h.length_dataSizes
  producePoint := h.producePoint
  consumePoint := h.consumePoint
  emptySem := by
    rw [Fintype.sum_unique]
    exact h.emptySem
  fullSem := by
    rw [Fintype.sum_unique]
    exact h.fullSem
  claimed := by
    intro p m i hp
    obtain ⟨hi, -, hm⟩ := h.claimed_eq hp
    exact ⟨n.stored, h.stored_le.1, hm, hi⟩
  claimed_inj := fun _ _ _ _ _ _ _ ↦ rfl
  consumer := h.consumer
  taking := h.taking
  fetched := h.fetched
  slots := by
    intro k m hk hm
    have hle := h.stored_le
    have hlt := (List.getElem?_eq_some_iff.1 hm).1
    rcases Nat.lt_or_ge k n.stored with hstored | hstored
    · obtain ⟨hring, hsizes⟩ := h.slots k m hk hstored hm
      refine .inl ⟨hring, hsizes, fun p m' hp ↦ ?_⟩
      obtain ⟨hi, -, -⟩ := h.claimed_eq hp
      simp only [hp, AddPhase.unstored] at hle
      have hk' : n.taken ≤ k := hk
      exact FifoRing.mod_ne_mod hstored (by omega) (Int.ofNat_inj.1 hi)
    · -- the one message that has a slot and is not stored
      cases hp : n.producer () with
      | claimed m' i =>
        obtain ⟨rfl, hlen, hm'⟩ := h.claimed_eq hp
        obtain rfl : k = n.stored := by omega
        cases hm'.symm.trans hm
        exact .inr ⟨(), hp⟩
      | idle | waited message | stored =>
        rw [stored, hp, AddPhase.unstored] at hstored
        omega

theorem of_shared (h : Shared N n) (hlast : ∀ m i, n.producer () = .claimed m i →
    i = ((n.added.length - 1) % N : ℕ) ∧ n.added[n.added.length - 1]? = some m) : Inv N n where
  ringSize := h.ringSize
  length_ring := h.length_ring
  length_dataSizes := h.length_dataSizes
  producePoint := h.producePoint
  consumePoint := h.consumePoint
  emptySem := by
    have hempty := h.emptySem
    rwa [Fintype.sum_unique] at hempty
  fullSem := by
    have hfull := h.fullSem
    rwa [Fintype.sum_unique] at hfull
  claimed := hlast
  consumer := h.consumer
  taking := h.taking
  fetched := h.fetched
  slots := by
    intro k m hk hlt hm
    rcases h.slots k m hk hm with hf | ⟨p, hp⟩
    · exact ⟨hf.ring, hf.dataSizes⟩
    · obtain ⟨hi, hm'⟩ := hlast m _ hp
      have hle := h.lt_of_getElem? hm'
      rw [stored, hp, AddPhase.unstored] at hlt
      have hk' : n.reads ≤ k := hk
      exact absurd (Int.ofNat_inj.1 hi) (FifoRing.mod_ne_mod hlt (by omega))

theorem start {r : FifoRing} (h : r.Blank N) : Inv N (RingNet.start Unit r) :=
  of_shared (Shared.start h) (by simp [RingNet.start])

/-- What a call of `Fetch` finds in the slot it has claimed: the oldest message. -/
theorem take_claimed (h : Inv N n) {i : Int} (hc : n.consumer = .claimed i) :
    ∃ m, n.added[n.taken]? = some m ∧ n.ring.take i
      = .ok ({ n.ring with ring := n.ring.ring.set (n.taken % N) none },
        some ((m.length : Int), m)) := by
  obtain ⟨m, -, hm, -, htake⟩ := h.shared.take_claimed hc (h.not_claimed hc)
  exact ⟨m, hm, htake⟩

/-- A step of either thread keeps the invariant, and `Fetch` does not fail. -/
theorem step (h : Inv N n) (hN : 0 < N) (hs : Step n n') : Inv N n' := by
  refine of_shared (h.shared.step hN hs fun i hc _ ↦ h.not_claimed hc) ?_
  cases hs with
  | waitEmpty message hp hr | store hp hr | postFull hp => simp
  | @claimProduce _ message _ _ hp hr =>
    rw [FifoRing.claimProduce_eq hN h.ringSize h.producePoint] at hr
    cases hr
    intro m i hmi
    simp only [Function.update_self, AddPhase.claimed.injEq] at hmi
    obtain ⟨rfl, rfl⟩ := hmi
    simp
  | waitFull hc hr | claimConsume hc hr | take hc hr | fail hc hr | postEmpty hc => exact h.claimed

theorem reachable {r : FifoRing} (hr : r.Blank N)
    (hn : Relation.ReflTransGen Step (RingNet.start Unit r) n) : Inv N n := by
  have htwo := hr.two_le
  induction hn with
  | refl => exact start hr
  | tail _ hs ih => exact ih.step (by omega) hs

/-- The queue a ring in this state stands for. -/
def queue (h : Inv N n) : BoundedQueue Bytes N where
  put := n.added.take n.stored
  got := n.added.take n.taken
  got_le := List.take_prefix_take_left h.stored_le.1
  length_le := by
    have hle := h.stored_le
    rw [List.length_take, List.length_take]
    omega

/-- A step puts a message into the queue, takes one out, or does neither. -/
theorem queue_step (h : Inv N n) (hN : 0 < N) (hs : Step n n') :
    (h.step hN hs).queue = h.queue ∨ h.queue.Step (h.step hN hs).queue := by
  cases hs with
  | waitEmpty message hp hr | postFull hp =>
    refine .inl (BoundedQueue.ext ?_ rfl)
    show n.added.take (RingNet.stored _) = n.added.take n.stored
    simp only [stored, hp, Function.update_self, AddPhase.unstored]
  | @claimProduce _ message _ _ hp hr =>
    have hstored : n.stored = n.added.length := by rw [stored, hp]; rfl
    have htaken : n.taken ≤ n.added.length := by rw [← hstored]; exact h.stored_le.1
    refine .inl (BoundedQueue.ext ?_ ?_)
    · show (n.added ++ [message]).take (RingNet.stored _) = n.added.take n.stored
      rw [hstored, List.take_length]
      simp only [stored, Function.update_self, AddPhase.unstored, List.length_append,
        List.length_singleton, Nat.add_sub_cancel, List.take_left]
    · exact List.take_append_of_le_length htaken
  | @store _ message _ _ hp hr =>
    obtain ⟨-, hstored, hm⟩ := h.claimed_eq hp
    refine .inr (.put message ?_ rfl)
    show n.added.take n.added.length = n.added.take n.stored ++ [message]
    rw [← hstored, List.take_add_one, hm]
    rfl
  | waitFull hc hr | claimConsume hc hr =>
    refine .inl (BoundedQueue.ext rfl ?_)
    show n.added.take (RingNet.taken _) = n.added.take n.taken
    simp only [taken, hc, FetchPhase.takes]
  | take hc hr =>
    obtain ⟨m, hm, -⟩ := h.take_claimed hc
    have htaken : n.taken = n.fetched.length := by rw [taken, hc]; rfl
    refine .inr (.get m rfl ?_)
    show n.added.take (n.fetched.length + 1) = n.added.take n.taken ++ [m]
    rw [← htaken, List.take_add_one, hm]
    rfl
  | fail hc hr =>
    obtain ⟨m, -, htake⟩ := h.take_claimed hc
    rw [htake] at hr
    simp at hr
  | postEmpty hc =>
    refine .inl (BoundedQueue.ext rfl ?_)
    show n.added.take (RingNet.taken _) = n.added.take n.taken
    simp only [taken, hc, FetchPhase.takes, List.length_append, List.length_singleton, Nat.add_zero]

end Inv

/-- The ring stands for the queue `q`: the messages in `q` are in their slots. -/
structure Holds {N : ℕ} (n : RingNet Unit) (q : BoundedQueue Bytes N) : Prop where
  put : q.put = n.added.take n.stored
  got : q.got = n.added.take n.taken
  slots : ∀ (k : ℕ) m, q.items[k]? = some m →
    n.ring.ring[(n.taken + k) % N]? = some (some m) ∧
      n.ring.dataSizes[(n.taken + k) % N]? = some (m.length : Int)

theorem Inv.holds {N : ℕ} {n : RingNet Unit} (h : Inv N n) : n.Holds h.queue where
  put := rfl
  got := rfl
  slots := by
    intro k m hm
    have hle := h.stored_le
    have hlen : n.stored ≤ n.added.length := Nat.sub_le _ _
    have hgot : h.queue.got.length = n.taken := by
      show (n.added.take n.taken).length = n.taken
      rw [List.length_take]
      omega
    rw [BoundedQueue.items, hgot, List.getElem?_drop] at hm
    obtain ⟨hlt, -⟩ := List.getElem?_eq_some_iff.1 hm
    have hlt' : n.taken + k < n.stored := lt_of_lt_of_le hlt (List.length_take_le _ _)
    have hm' : n.added[n.taken + k]? = some m := by
      rw [← List.getElem?_take_of_lt hlt']
      exact hm
    exact h.slots (n.taken + k) m (Nat.le_add_right _ _) hlt' hm'

/-- What the claims of a bounded queue come to in a state: the `i`-th `Fetch` has returned the bytes
and the length of the `i`-th `Add`, and never `-1`; the ring stands for a queue of at most
`ring_size` unread messages, and a step of either thread is a step of that queue or leaves it alone;
a call of `Add` that is about to store has claimed a slot that holds no unread message; and a call
of `Fetch` that is about to read has claimed the slot of the oldest. -/
structure Refines (ringSize : Int) (n : RingNet Unit) : Prop where
  fetched : ∀ (i : ℕ) r, n.fetched[i]? = some r →
    ∃ m : Bytes, n.added[i]? = some m ∧ r = some ((m.length : Int), m)
  queue : ∃ q : BoundedQueue Bytes ringSize.toNat, n.Holds q ∧ (q.items.length : Int) ≤ ringSize ∧
    ∀ n', Step n n' → ∃ q' : BoundedQueue Bytes ringSize.toNat, n'.Holds q' ∧
      (q' = q ∨ q.Step q')
  store : ∀ m i, n.producer () = .claimed m i → (∃ r, n.ring.store i m = .ok r) ∧
    ∀ k, n.taken ≤ k → k < n.stored → ((k % ringSize.toNat : ℕ) : Int) ≠ i
  claimProduce : ∀ m, n.producer () = .waited m → ∃ r, n.ring.claimProduce = .ok r
  claimConsume : n.consumer = .waited → ∃ r, n.ring.claimConsume = .ok r
  take : ∀ i, n.consumer = .claimed i → ∃ (r : FifoRing) (m : Bytes),
    n.ring.take i = .ok (r, some ((m.length : Int), m)) ∧ n.added[n.taken]? = some m

theorem Inv.refines {N : ℕ} {n : RingNet Unit} (h : Inv N n) (hN : 0 < N) : n.Refines N where
  fetched := h.fetched
  queue := by
    rw [Int.toNat_natCast]
    exact ⟨h.queue, h.holds, Int.ofNat_le.2 h.queue.length_items_le, fun n' hs ↦
      ⟨(h.step hN hs).queue, (h.step hN hs).holds, h.queue_step hN hs⟩⟩
  store := by
    intro m i hp
    obtain ⟨rfl, -, -⟩ := h.claimed_eq hp
    have hlt : n.stored % N < N := Nat.mod_lt _ hN
    refine ⟨⟨_, FifoRing.store_eq (by rw [h.length_ring]; exact hlt)
      (by rw [h.length_dataSizes]; exact hlt) m⟩, fun k hk hk' heq ↦ ?_⟩
    have hle := h.stored_le
    simp only [hp, AddPhase.unstored] at hle
    rw [Int.toNat_natCast] at heq
    exact FifoRing.mod_ne_mod hk' (by omega) (Int.ofNat_inj.1 heq)
  claimProduce := fun m _ ↦ ⟨_, FifoRing.claimProduce_eq hN h.ringSize h.producePoint⟩
  claimConsume := fun _ ↦ ⟨_, FifoRing.claimConsume_eq hN h.ringSize h.consumePoint⟩
  take := by
    intro i hc
    obtain ⟨m, hm, htake⟩ := h.take_claimed hc
    exact ⟨_, m, htake, hm⟩

/-- **The ring is a bounded queue if it has two slots**, for one thread that adds and one that
fetches: it can be initialised and every reachable state refines a bounded queue, if and only if it
has more than one. -/
theorem ring_refines_queue_iff {ringSize : Int} {ring : List (Option Bytes)} {dataSizes : List Int}
    (hring : (ring.length : Int) = ringSize) (hsizes : (dataSizes.length : Int) = ringSize) :
    (∃ r, FifoRing.initializeRing ringSize ring dataSizes = .ok r ∧ ∀ n : RingNet Unit,
      Relation.ReflTransGen Step (start Unit r) n → n.Refines ringSize) ↔ 2 ≤ ringSize := by
  constructor
  · rintro ⟨r, hinit, -⟩
    exact (FifoRing.initializeRing_ok_iff hring hsizes).1 ⟨r, hinit⟩
  · intro htwo
    obtain ⟨r, hinit⟩ := (FifoRing.initializeRing_ok_iff hring hsizes).2 htwo
    obtain ⟨N, rfl⟩ : ∃ N : ℕ, ringSize = N := ⟨ringSize.toNat, by omega⟩
    have hblank := FifoRing.Fresh.blank ⟨ring, dataSizes, hring, hsizes, hinit⟩
    exact ⟨r, hinit, fun n hn ↦ (Inv.reachable hblank hn).refines (by omega)⟩

/-- A ring of two slots, full of garbage at first, that three messages go through, so that the third
is in the slot of the first. -/
theorem ring_refines_queue_iff_twoSlots : ∃ (r : FifoRing) (n : RingNet Unit),
    FifoRing.initializeRing 2 [some [9], some [9]] [7, 7] = .ok r ∧
    Relation.ReflTransGen Step (start Unit r) n ∧ n.added = [[1, 2], [], [3]] ∧
    n.fetched = [some (2, [1, 2])] ∧ n.Refines 2 := by
  have hn : Relation.ReflTransGen Step (start Unit ⟨2, [none, some [9]], [0, 0], 0, 0, 2, 0⟩) _ :=
    Relation.ReflTransGen.refl |>.tail (.waitEmpty (p := ()) [1, 2] rfl rfl)
      |>.tail (.claimProduce (p := ()) rfl rfl) |>.tail (.store (p := ()) rfl rfl)
      |>.tail (.postFull (p := ()) rfl) |>.tail (.waitEmpty (p := ()) [] rfl rfl)
      |>.tail (.claimProduce (p := ()) rfl rfl) |>.tail (.waitFull rfl rfl)
      |>.tail (.claimConsume rfl rfl) |>.tail (.store (p := ()) rfl rfl)
      |>.tail (.take rfl rfl) |>.tail (.postFull (p := ()) rfl) |>.tail (.postEmpty rfl)
      |>.tail (.waitEmpty (p := ()) [3] rfl rfl) |>.tail (.claimProduce (p := ()) rfl rfl)
      |>.tail (.store (p := ()) rfl rfl)
  obtain ⟨r, hinit, hrefines⟩ : ∃ r, FifoRing.initializeRing 2 [some [9], some [9]] [7, 7] = .ok r ∧
      ∀ n : RingNet Unit, Relation.ReflTransGen Step (start Unit r) n → n.Refines 2 :=
    (ring_refines_queue_iff (by decide) (by decide)).2 (by decide)
  cases hinit
  exact ⟨_, _, rfl, hn, rfl, rfl, hrefines _ hn⟩

/-- With one slot `Initialize` writes behind the array of the lengths. -/
theorem oneSlot_not_initialized : FifoRing.initializeRing 1 [none] [0] = .error .outOfRange ∧
    ¬ ∃ r, FifoRing.initializeRing 1 [none] [0] = .ok r ∧ ∀ n : RingNet Unit,
      Relation.ReflTransGen Step (start Unit r) n → n.Refines 1 := by
  refine ⟨rfl, ?_⟩
  rintro ⟨r, hinit, -⟩
  cases hinit

end RingNet

end Rpscc
