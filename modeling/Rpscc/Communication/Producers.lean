import Mathlib.Algebra.BigOperators.Group.Finset.Piecewise
import Mathlib.Logic.Relation
import Rpscc.Communication.FifoRing

/-!
# Several threads that add

A server or an agent sends from two threads through one ring.  The two indices are under mutexes,
so that no two calls of `Add` claim the same slot; but `full_sem_` only counts how many calls have
finished, not which.  A call that claimed its slot first and is slow to fill it is overtaken, the
signal of the other call lets `Fetch` in, and `Fetch` goes to the slot that is not filled yet
(`overtaken_add_lost`).

`Shared` is the invariant for any number of threads.  It says of every message that has a slot that
it has been fetched, or lies in its slot, or is still in the hands of its `Add`, and it is kept by
all steps but that one: `several_producers_conserve`.
-/

set_option autoImplicit false

namespace Rpscc

open Function (update)

/-- One thread moves on, and a count over all of them changes by what it counts for. -/
theorem sum_comp_update {P β : Type} [Fintype P] [DecidableEq P] {f : β → ℕ} {g : P → β} {p : P}
    {x : β} {a b : ℕ} (ha : f (g p) = a) (hb : f x = b) :
    (∑ q, f (update g p x q)) + a = (∑ q, f (g q)) + b := by
  have hcomp : ∀ q, f (update g p x q) = update (fun q ↦ f (g q)) p (f x) q :=
    Function.apply_update (fun _ ↦ f) g p x
  have hsplit := Finset.add_sum_erase Finset.univ (fun q ↦ f (g q)) (Finset.mem_univ p)
  simp only [hcomp]
  rw [Finset.sum_update_of_mem (Finset.mem_univ p), Finset.sdiff_singleton_eq_erase, ← hsplit, hb,
    ha]
  omega

namespace RingNet

variable {P : Type}

/-- The number of messages that have been read out of their slots. -/
def reads (n : RingNet P) : ℕ := n.fetched.length + n.consumer.takes

/-- Slot `i` holds the message, and no call of `Add` is about to overwrite it. -/
structure Filled (n : RingNet P) (i : ℕ) (m : Bytes) : Prop where
  ring : n.ring.ring[i]? = some (some m)
  dataSizes : n.ring.dataSizes[i]? = some (m.length : Int)
  unclaimed : ∀ p m', n.producer p ≠ .claimed m' i

/-- Nothing gets lost.  The `k`-th call of `Fetch` has returned the `k`-th message that was given a
slot, and never `-1`.  A message that has not been fetched is about to be returned, or lies in the
slot where `Fetch` will look for it, or its `Add` has not got as far as to store it, and no two
calls are about to store into one slot.  When nobody is in a call the two semaphores count all the
slots. -/
structure Conserved (N : ℕ) (n : RingNet P) : Prop where
  fetched : ∀ (k : ℕ) r, n.fetched[k]? = some r →
    ∃ m : Bytes, n.added[k]? = some m ∧ r = some ((m.length : Int), m)
  unread : ∀ (k : ℕ) m, n.added[k]? = some m → n.fetched.length ≤ k →
    k = n.fetched.length ∧ n.consumer = .taken ((m.length : Int), m) ∨ n.Filled (k % N) m ∨
      ∃ p, n.producer p = .claimed m (k % N : ℕ)
  held : ∀ p m i, n.producer p = .claimed m i →
    (∃ k : ℕ, n.fetched.length ≤ k ∧ n.added[k]? = some m ∧ i = (k % N : ℕ)) ∧
      ∀ q m', n.producer q = .claimed m' i → q = p
  next : ∀ i, n.consumer = .claimed i → i = (n.fetched.length % N : ℕ)
  semaphores : (∀ p, n.producer p = .idle) → n.consumer = .idle →
    n.ring.emptySem + n.ring.fullSem = N

/-- `Fetch` does not read a slot that a call of `Add` has claimed and not filled yet. -/
def ReadsFilled (n n' : RingNet P) : Prop :=
  ∀ i, n.consumer = .claimed i → n'.consumer ≠ .claimed i → ∀ p m, n.producer p ≠ .claimed m i

variable [Fintype P]

/-- What the semaphores, the indices and the slots of a ring of `N` slots have to do with one
another, whoever adds. -/
structure Shared (N : ℕ) (n : RingNet P) : Prop where
  ringSize : n.ring.ringSize = N
  length_ring : n.ring.ring.length = N
  length_dataSizes : n.ring.dataSizes.length = N
  producePoint : n.ring.producePoint = (n.added.length % N : ℕ)
  consumePoint : n.ring.consumePoint = ((n.fetched.length + n.consumer.claims) % N : ℕ)
  emptySem : n.ring.emptySem + (n.added.length + ∑ p, (n.producer p).begun)
    = N + n.fetched.length
  fullSem : n.ring.fullSem + (n.fetched.length + n.consumer.begun) + ∑ p, (n.producer p).unposted
    = n.added.length
  claimed : ∀ p m i, n.producer p = .claimed m i →
    ∃ k : ℕ, n.reads ≤ k ∧ n.added[k]? = some m ∧ i = (k % N : ℕ)
  claimed_inj : ∀ p q m m' i, n.producer p = .claimed m i → n.producer q = .claimed m' i → p = q
  consumer : ∀ i, n.consumer = .claimed i → i = (n.fetched.length % N : ℕ)
  taking : ∀ r, n.consumer = .taken r →
    ∃ m : Bytes, n.added[n.fetched.length]? = some m ∧ r = ((m.length : Int), m)
  fetched : ∀ (k : ℕ) r, n.fetched[k]? = some r →
    ∃ m : Bytes, n.added[k]? = some m ∧ r = some ((m.length : Int), m)
  slots : ∀ (k : ℕ) m, n.reads ≤ k → n.added[k]? = some m →
    n.Filled (k % N) m ∨ ∃ p, n.producer p = .claimed m (k % N : ℕ)

/-! ## Steps -/

namespace Shared

variable {N : ℕ} {n n' : RingNet P}

theorem start {r : FifoRing} (h : r.Blank N) : Shared N (RingNet.start P r) where
  ringSize := h.ringSize
  length_ring := h.length_ring
  length_dataSizes := h.length_dataSizes
  producePoint := by simp [RingNet.start, h.producePoint]
  consumePoint := by simp [RingNet.start, h.consumePoint, FetchPhase.claims]
  emptySem := by simp [RingNet.start, h.emptySem, AddPhase.begun]
  fullSem := by simp [RingNet.start, h.fullSem, AddPhase.unposted, FetchPhase.begun]
  claimed := by simp [RingNet.start]
  claimed_inj := by simp [RingNet.start]
  consumer := by simp [RingNet.start]
  taking := by simp [RingNet.start]
  fetched := by simp [RingNet.start]
  slots := by simp [RingNet.start]

/-- Everything that has a slot and has not been read is less than a ring apart, even with one more
message for every call that has passed its semaphore. -/
theorem added_le (h : Shared N n) :
    n.reads ≤ n.added.length ∧ n.added.length + ∑ p, (n.producer p).begun ≤ n.reads + N := by
  have hempty := h.emptySem
  have hfull := h.fullSem
  have hfetch := n.consumer.takes_le
  rw [reads]
  omega

theorem lt_of_getElem? (h : Shared N n) {k : ℕ} {m : Bytes} (hm : n.added[k]? = some m) :
    k < n.reads + N := by
  have hle := h.added_le
  have hlt := (List.getElem?_eq_some_iff.1 hm).1
  omega

/-- Messages that have not been read are in different slots. -/
theorem mod_ne (h : Shared N n) {j k : ℕ} {m m' : Bytes} (hj : n.reads ≤ j) (hk : n.reads ≤ k)
    (hjm : n.added[j]? = some m) (hkm : n.added[k]? = some m') (hne : j ≠ k) : j % N ≠ k % N := by
  have hjN := h.lt_of_getElem? hjm
  have hkN := h.lt_of_getElem? hkm
  rcases Nat.lt_or_gt_of_ne hne with hlt | hgt
  · exact FifoRing.mod_ne_mod hlt (by omega)
  · exact (FifoRing.mod_ne_mod hgt (by omega)).symm

variable (h : Shared N n)

include h

/-! ### Fetching -/

theorem waitFull {r : FifoRing} (hc : n.consumer = .idle) (hr : n.ring.waitFull = some r) :
    Shared N { n with ring := r, consumer := .waited } := by
  obtain ⟨hpos, rfl⟩ := FifoRing.waitFull_eq_some hr
  have hpoint := h.consumePoint
  have hfull := h.fullSem
  have hclaimed := h.claimed
  have hslots := h.slots
  simp only [reads, hc, FetchPhase.begun, FetchPhase.claims, FetchPhase.takes]
    at hpoint hfull hclaimed hslots
  exact { h with
    consumePoint := hpoint
    fullSem := by
      simp only [FetchPhase.begun]
      omega
    claimed := hclaimed
    consumer := by simp
    taking := by simp
    slots := fun k m hk hm ↦ (hslots k m hk hm).imp_left fun hf ↦
      ⟨hf.ring, hf.dataSizes, hf.unclaimed⟩ }

theorem claimConsume (hN : 0 < N) {r : FifoRing} {index : Int} (hc : n.consumer = .waited)
    (hr : n.ring.claimConsume = .ok (r, index)) :
    Shared N { n with ring := r, consumer := .claimed index } := by
  rw [FifoRing.claimConsume_eq hN h.ringSize h.consumePoint] at hr
  cases hr
  have hfull := h.fullSem
  have hclaimed := h.claimed
  have hslots := h.slots
  simp only [reads, hc, FetchPhase.begun, FetchPhase.takes] at hfull hclaimed hslots
  exact { h with
    consumePoint := by simp only [hc, FetchPhase.claims, Nat.add_zero]
    fullSem := hfull
    claimed := hclaimed
    consumer := by
      intro i hi
      cases hi
      simp only [hc, FetchPhase.claims, Nat.add_zero]
    taking := by simp
    slots := fun k m hk hm ↦ (hslots k m hk hm).imp_left fun hf ↦
      ⟨hf.ring, hf.dataSizes, hf.unclaimed⟩ }

/-- What a call of `Fetch` finds in the slot it has claimed, if that is filled: the oldest
message. -/
theorem take_claimed {i : Int} (hc : n.consumer = .claimed i)
    (hfilled : ∀ p m, n.producer p ≠ .claimed m i) :
    ∃ m, n.reads = n.fetched.length ∧ n.added[n.reads]? = some m ∧ i = (n.reads % N : ℕ) ∧
      n.ring.take i = .ok ({ n.ring with ring := n.ring.ring.set (n.reads % N) none },
        some ((m.length : Int), m)) := by
  have hreads : n.reads = n.fetched.length := by rw [reads, hc]; rfl
  have hi : i = (n.reads % N : ℕ) := by rw [hreads]; exact h.consumer i hc
  have hlt : n.reads < n.added.length := by
    have hfull := h.fullSem
    simp only [hc, FetchPhase.begun] at hfull
    omega
  have hm := List.getElem?_eq_getElem hlt
  subst hi
  rcases h.slots n.reads _ le_rfl hm with hf | ⟨p, hp⟩
  · exact ⟨_, hreads, hm, rfl, FifoRing.take_eq hf.ring hf.dataSizes⟩
  · exact absurd hp (hfilled p _)

theorem take {r : FifoRing} {index : Int} {message : Int × Bytes} (hc : n.consumer = .claimed index)
    (hfilled : ∀ p m, n.producer p ≠ .claimed m index)
    (hr : n.ring.take index = .ok (r, some message)) :
    Shared N { n with ring := r, consumer := .taken message } := by
  obtain ⟨m, hreads, hm, rfl, htake⟩ := h.take_claimed hc hfilled
  rw [htake] at hr
  cases hr
  have hpoint := h.consumePoint
  have hfull := h.fullSem
  simp only [hc, FetchPhase.begun, FetchPhase.claims] at hpoint hfull
  have hnext : ∀ {k : ℕ}, n.fetched.length + 1 ≤ k → n.reads ≤ k ∧ n.reads ≠ k := by omega
  exact { h with
    length_ring := by rw [List.length_set]; exact h.length_ring
    consumePoint := hpoint
    fullSem := hfull
    claimed := by
      intro p m' i hp
      obtain ⟨k, hk, hm', rfl⟩ := h.claimed p m' i hp
      have hne : k ≠ n.reads := fun heq ↦ hfilled p m' (heq ▸ hp)
      exact ⟨k, show n.fetched.length + 1 ≤ k by omega, hm', rfl⟩
    consumer := by simp
    taking := by
      intro x hx
      cases hx
      exact ⟨m, by rw [← hreads]; exact hm, rfl⟩
    slots := by
      intro k m' hk hm'
      obtain ⟨hle, hne⟩ := hnext hk
      refine (h.slots k m' hle hm').imp_left fun hf ↦ ⟨?_, hf.dataSizes, hf.unclaimed⟩
      rw [List.getElem?_set_ne (h.mod_ne le_rfl hle hm hm' hne)]
      exact hf.ring }

theorem postEmpty {message : Int × Bytes} (hc : n.consumer = .taken message) :
    Shared N { n with
      ring := n.ring.postEmpty
      consumer := .idle
      fetched := n.fetched ++ [some message] } := by
  obtain ⟨m, hm, rfl⟩ := h.taking message hc
  have hempty := h.emptySem
  have hpoint := h.consumePoint
  have hfull := h.fullSem
  have hclaimed := h.claimed
  have hslots := h.slots
  simp only [reads, hc, FetchPhase.begun, FetchPhase.claims, FetchPhase.takes]
    at hpoint hfull hclaimed hslots
  have hlen : (n.fetched ++ [some ((m.length : Int), m)]).length = n.fetched.length + 1 := by simp
  exact { h with
    consumePoint := by
      rw [hlen]
      exact hpoint
    emptySem := by
      simp only [FifoRing.postEmpty, hlen]
      omega
    fullSem := by
      simp only [FifoRing.postEmpty, FetchPhase.begun, hlen]
      omega
    claimed := by
      simp only [reads, hlen]
      exact hclaimed
    consumer := by simp
    taking := by simp
    fetched := by
      intro k x hx
      rcases Nat.lt_trichotomy k n.fetched.length with hlt | rfl | hlt
      · rw [List.getElem?_append_left hlt] at hx
        exact h.fetched k x hx
      · rw [List.getElem?_concat_length] at hx
        cases hx
        exact ⟨m, hm, rfl⟩
      · rw [List.getElem?_eq_none (by rw [hlen]; omega)] at hx
        simp at hx
    slots := by
      simp only [reads, hlen]
      exact fun k m' hk hm' ↦ (hslots k m' hk hm').imp_left fun hf ↦
        ⟨hf.ring, hf.dataSizes, hf.unclaimed⟩ }

theorem conserved : n.Conserved N where
  fetched := h.fetched
  unread := by
    intro k m hm hk
    rcases Nat.lt_or_ge k n.reads with hlt | hge
    · -- only the message that has just been read out of its slot
      rw [reads] at hlt
      cases hc : n.consumer with
      | taken r =>
        simp only [hc, FetchPhase.takes] at hlt
        obtain rfl : k = n.fetched.length := by omega
        obtain ⟨m', hm', rfl⟩ := h.taking r hc
        obtain rfl : m = m' := Option.some.inj (hm.symm.trans hm')
        exact .inl ⟨rfl, rfl⟩
      | idle | waited | claimed i =>
        simp only [hc, FetchPhase.takes] at hlt
        omega
    · exact .inr (h.slots k m hge hm)
  held := by
    intro p m i hp
    obtain ⟨k, hk, hm, hi⟩ := h.claimed p m i hp
    exact ⟨⟨k, le_trans (Nat.le_add_right _ _) hk, hm, hi⟩, fun q m' hq ↦
      h.claimed_inj q p m' m i hq hp⟩
  next := h.consumer
  semaphores := by
    intro hidle hc
    have hempty := h.emptySem
    have hfull := h.fullSem
    simp only [hidle, hc, AddPhase.begun, AddPhase.unposted, FetchPhase.begun,
      Finset.sum_const_zero] at hempty hfull
    omega

/-! ### Adding -/

variable [DecidableEq P]

omit h [Fintype P] in
/-- A thread that neither holds a slot nor gets one. -/
theorem update_eq_claimed {g : P → AddPhase} {p : P} {x : AddPhase}
    (hold : ∀ m i, g p ≠ .claimed m i) (hnew : ∀ m i, x ≠ .claimed m i) (q : P) (m : Bytes)
    (i : Int) : update g p x q = .claimed m i ↔ g q = .claimed m i := by
  by_cases hq : q = p
  · subst hq
    simp [hold, hnew]
  · rw [Function.update_of_ne hq]

/-- A thread passes a semaphore of `Add`. -/
theorem pass {p : P} {x : AddPhase} {e f : ℕ} (hold : ∀ m i, n.producer p ≠ .claimed m i)
    (hnew : ∀ m i, x ≠ .claimed m i)
    (hempty : e + x.begun = n.ring.emptySem + (n.producer p).begun)
    (hfull : f + x.unposted = n.ring.fullSem + (n.producer p).unposted) :
    Shared N { n with
      ring := { n.ring with emptySem := e, fullSem := f }
      producer := update n.producer p x } := by
  have hsame := update_eq_claimed hold hnew
  have hbegun := sum_comp_update (f := AddPhase.begun) (g := n.producer) (p := p) (x := x) rfl rfl
  have hunposted := sum_comp_update (f := AddPhase.unposted) (g := n.producer) (p := p) (x := x)
    rfl rfl
  have hempty' := h.emptySem
  have hfull' := h.fullSem
  exact { h with
    emptySem := by
      dsimp only
      omega
    fullSem := by
      dsimp only
      omega
    claimed := by
      simp only [hsame]
      exact h.claimed
    claimed_inj := by
      simp only [hsame]
      exact h.claimed_inj
    slots := by
      intro k m hk hm
      simp only [hsame]
      exact (h.slots k m hk hm).imp_left fun hf ↦
        ⟨hf.ring, hf.dataSizes, fun q m' ↦ mt (hsame q m' _).1 (hf.unclaimed q m')⟩ }

theorem waitEmpty {p : P} {r : FifoRing} {message : Bytes} (hp : n.producer p = .idle)
    (hr : n.ring.waitEmpty = some r) :
    Shared N { n with ring := r, producer := update n.producer p (.waited message) } := by
  obtain ⟨hpos, rfl⟩ := FifoRing.waitEmpty_eq_some hr
  refine h.pass (by simp [hp]) (by simp) ?_ ?_
  · simp only [hp, AddPhase.begun]
    omega
  · simp only [hp, AddPhase.unposted]

/-- A call that has passed its semaphore does not claim the slot of a message that is still
there. -/
theorem mod_ne_next {p : P} {message : Bytes} (hp : n.producer p = .waited message) {k : ℕ}
    {m : Bytes} (hk : n.reads ≤ k) (hm : n.added[k]? = some m) : k % N ≠ n.added.length % N := by
  have hle := h.added_le
  have hbegun := sum_comp_update (f := AddPhase.begun) (g := n.producer) (p := p) (x := .idle)
    (a := 1) (b := 0) (by rw [hp]; rfl) rfl
  exact FifoRing.mod_ne_mod (List.getElem?_eq_some_iff.1 hm).1 (by omega)

theorem claimProduce (hN : 0 < N) {p : P} {r : FifoRing} {message : Bytes} {index : Int}
    (hp : n.producer p = .waited message) (hr : n.ring.claimProduce = .ok (r, index)) :
    Shared N { n with
      ring := r
      producer := update n.producer p (.claimed message index)
      added := n.added ++ [message] } := by
  rw [FifoRing.claimProduce_eq hN h.ringSize h.producePoint] at hr
  cases hr
  have hbegun := sum_comp_update (f := AddPhase.begun) (g := n.producer) (p := p)
    (x := .claimed message (n.added.length % N : ℕ)) (a := 1) (b := 0) (by rw [hp]; rfl) rfl
  have hunposted := sum_comp_update (f := AddPhase.unposted) (g := n.producer) (p := p)
    (x := .claimed message (n.added.length % N : ℕ)) (a := 0) (b := 1) (by rw [hp]; rfl) rfl
  have hempty := h.emptySem
  have hfull := h.fullSem
  have hle := h.added_le
  have hmono : ∀ {k : ℕ} {m : Bytes}, n.added[k]? = some m → (n.added ++ [message])[k]? = some m :=
    fun hm ↦ by rw [List.getElem?_append_left (List.getElem?_eq_some_iff.1 hm).1, hm]
  have hother : ∀ q m i, q ≠ p → update n.producer p (.claimed message (n.added.length % N : ℕ)) q
      = .claimed m i → n.producer q = .claimed m i ∧ i ≠ (n.added.length % N : ℕ) := by
    intro q m i hq hqi
    rw [Function.update_of_ne hq] at hqi
    obtain ⟨k, hk, hm, rfl⟩ := h.claimed q m i hqi
    exact ⟨hqi, fun heq ↦ h.mod_ne_next hp hk hm (Int.ofNat_inj.1 heq)⟩
  have hself : ∀ m i, update n.producer p (.claimed message (n.added.length % N : ℕ)) p
      = .claimed m i → message = m ∧ (n.added.length % N : ℕ) = i := by
    intro m i hpi
    rwa [Function.update_self, AddPhase.claimed.injEq] at hpi
  exact { h with
    producePoint := by rw [List.length_append]; rfl
    emptySem := by
      simp only [List.length_append, List.length_singleton]
      omega
    fullSem := by
      simp only [List.length_append, List.length_singleton]
      omega
    claimed := by
      intro q m i hqi
      by_cases hq : q = p
      · subst hq
        obtain ⟨rfl, rfl⟩ := hself m i hqi
        exact ⟨n.added.length, hle.1, List.getElem?_concat_length, rfl⟩
      · obtain ⟨k, hk, hm, hi⟩ := h.claimed q m i (hother q m i hq hqi).1
        exact ⟨k, hk, hmono hm, hi⟩
    claimed_inj := by
      intro q q' m m' i hqi hqi'
      by_cases hq : q = p <;> by_cases hq' : q' = p
      · rw [hq, hq']
      · subst hq
        exact absurd (hself m i hqi).2.symm (hother q' m' i hq' hqi').2
      · subst hq'
        exact absurd (hself m' i hqi').2.symm (hother q m i hq hqi).2
      · exact h.claimed_inj q q' m m' i (hother q m i hq hqi).1 (hother q' m' i hq' hqi').1
    taking := by
      intro x hx
      obtain ⟨m, hm, hxm⟩ := h.taking x hx
      exact ⟨m, hmono hm, hxm⟩
    fetched := by
      intro k x hx
      obtain ⟨m, hm, hxm⟩ := h.fetched k x hx
      exact ⟨m, hmono hm, hxm⟩
    slots := by
      intro k m hk hm
      rcases Nat.lt_or_ge k n.added.length with hlt | hge
      · rw [List.getElem?_append_left hlt] at hm
        rcases h.slots k m hk hm with hf | ⟨q, hq⟩
        · refine .inl ⟨hf.ring, hf.dataSizes, fun q m' hqm ↦ ?_⟩
          by_cases hqp : q = p
          · subst hqp
            exact h.mod_ne_next hp hk hm (Int.ofNat_inj.1 (hself m' _ hqm).2).symm
          · exact hf.unclaimed q m' (hother q m' _ hqp hqm).1
        · have hqp : q ≠ p := fun heq ↦ by rw [heq, hp] at hq; cases hq
          exact .inr ⟨q, (Function.update_of_ne hqp ..).trans hq⟩
      · obtain ⟨hlt, hget⟩ := List.getElem?_eq_some_iff.1 hm
        have hk' : k = n.added.length := by
          rw [List.length_append, List.length_singleton] at hlt
          omega
        subst hk'
        rw [List.getElem?_concat_length] at hm
        cases hm
        exact .inr ⟨p, Function.update_self ..⟩ }

theorem store {p : P} {r : FifoRing} {message : Bytes} {index : Int}
    (hp : n.producer p = .claimed message index) (hr : n.ring.store index message = .ok r) :
    Shared N { n with ring := r, producer := update n.producer p .stored } := by
  obtain ⟨k₀, hk₀, hm₀, rfl⟩ := h.claimed p message index hp
  have hN : 0 < N := by
    have hle := h.lt_of_getElem? hm₀
    omega
  have hlt : k₀ % N < N := Nat.mod_lt _ hN
  rw [FifoRing.store_eq (by rw [h.length_ring]; exact hlt)
    (by rw [h.length_dataSizes]; exact hlt)] at hr
  cases hr
  have hbegun := sum_comp_update (f := AddPhase.begun) (g := n.producer) (p := p) (x := .stored)
    (a := 0) (b := 0) (by rw [hp]; rfl) rfl
  have hunposted := sum_comp_update (f := AddPhase.unposted) (g := n.producer) (p := p)
    (x := .stored) (a := 1) (b := 1) (by rw [hp]; rfl) rfl
  have hempty := h.emptySem
  have hfull := h.fullSem
  have hother : ∀ q m i, update n.producer p .stored q = .claimed m i →
      q ≠ p ∧ n.producer q = .claimed m i := by
    intro q m i hqi
    have hq : q ≠ p := fun heq ↦ by rw [heq, Function.update_self] at hqi; cases hqi
    exact ⟨hq, by rwa [Function.update_of_ne hq] at hqi⟩
  exact { h with
    length_ring := by rw [List.length_set]; exact h.length_ring
    length_dataSizes := by rw [List.length_set]; exact h.length_dataSizes
    emptySem := by
      dsimp only
      omega
    fullSem := by
      dsimp only
      omega
    claimed := fun q m i hqi ↦ h.claimed q m i (hother q m i hqi).2
    claimed_inj := fun q q' m m' i hqi hqi' ↦
      h.claimed_inj q q' m m' i (hother q m i hqi).2 (hother q' m' i hqi').2
    slots := by
      intro k m hk hm
      by_cases hkk : k = k₀
      · -- the message is in its slot now, and nobody else has claimed that
        subst hkk
        rw [hm₀] at hm
        cases hm
        refine .inl ⟨List.getElem?_set_self (by rw [h.length_ring]; exact hlt),
          List.getElem?_set_self (by rw [h.length_dataSizes]; exact hlt), fun q m' hqm ↦ ?_⟩
        obtain ⟨hq, hqm⟩ := hother q m' _ hqm
        exact hq (h.claimed_inj q p m' message _ hqm hp)
      · have hne : k₀ % N ≠ k % N := h.mod_ne hk₀ hk hm₀ hm (Ne.symm hkk)
        rcases h.slots k m hk hm with hf | ⟨q, hq⟩
        · refine .inl ⟨?_, ?_, fun q m' hqm ↦ hf.unclaimed q m' (hother q m' _ hqm).2⟩
          · rw [List.getElem?_set_ne hne]
            exact hf.ring
          · rw [List.getElem?_set_ne hne]
            exact hf.dataSizes
        · have hqp : q ≠ p := by
            rintro rfl
            rw [hp, AddPhase.claimed.injEq, Int.ofNat_inj] at hq
            exact hne hq.2
          exact .inr ⟨q, (Function.update_of_ne hqp ..).trans hq⟩ }

theorem postFull {p : P} (hp : n.producer p = .stored) :
    Shared N { n with ring := n.ring.postFull, producer := update n.producer p .idle } := by
  refine h.pass (by simp [hp]) (by simp) ?_ ?_
  · simp only [hp, AddPhase.begun]
  · simp only [hp, AddPhase.unposted]

omit h in
/-- A step keeps the invariant, unless it reads a slot that is not filled. -/
theorem step (h : Shared N n) (hN : 0 < N) (hs : Step n n') (hreads : ReadsFilled n n') :
    Shared N n' := by
  cases hs with
  | waitEmpty message hp hr => exact h.waitEmpty hp hr
  | claimProduce hp hr => exact h.claimProduce hN hp hr
  | store hp hr => exact h.store hp hr
  | postFull hp => exact h.postFull hp
  | waitFull hc hr => exact h.waitFull hc hr
  | claimConsume hc hr => exact h.claimConsume hN hc hr
  | take hc hr => exact h.take hc (hreads _ hc (by simp)) hr
  | fail hc hr =>
    obtain ⟨m, -, -, -, htake⟩ := h.take_claimed hc (hreads _ hc (by simp))
    rw [htake] at hr
    simp at hr
  | postEmpty hc => exact h.postEmpty hc

end Shared

/-- **Several threads may add, as long as nobody is overtaken.**  The ring can be initialised, and
with any number of threads that add and one that fetches, in every state that is reached by steps of
which none reads a slot that an `Add` has claimed and not filled, nothing has been lost. -/
theorem several_producers_conserve [DecidableEq P] {ringSize : Int} (hsize : 2 ≤ ringSize)
    {ring : List (Option Bytes)} {dataSizes : List Int} (hring : (ring.length : Int) = ringSize)
    (hsizes : (dataSizes.length : Int) = ringSize) :
    ∃ r, FifoRing.initializeRing ringSize ring dataSizes = .ok r ∧ ∀ n : RingNet P,
      Relation.ReflTransGen (fun n n' ↦ Step n n' ∧ ReadsFilled n n') (start P r) n →
      n.Conserved ringSize.toNat := by
  obtain ⟨r, hinit⟩ := (FifoRing.initializeRing_ok_iff hring hsizes).2 hsize
  obtain ⟨N, rfl⟩ : ∃ N : ℕ, ringSize = N := ⟨ringSize.toNat, by omega⟩
  refine ⟨r, hinit, fun n hn ↦ ?_⟩
  have h : Shared N n := by
    induction hn with
    | refl => exact Shared.start (FifoRing.Fresh.blank ⟨ring, dataSizes, hring, hsizes, hinit⟩)
    | tail _ hs ih => exact ih.step (by omega) hs.1 hs.2
  exact h.conserved

omit [Fintype P] in
theorem readsFilled_of_ne {n n' : RingNet P} (h : ∀ i, n.consumer ≠ .claimed i) :
    ReadsFilled n n' :=
  fun i hi ↦ absurd hi (h i)

/-- Two threads add to a ring of two slots, and the one that came second finishes first; but both
have filled their slots before anybody looks. -/
theorem several_producers_conserve_two : ∃ (r : FifoRing) (n : RingNet Bool),
    FifoRing.initializeRing 2 [some [9], none] [7, 7] = .ok r ∧
    Relation.ReflTransGen (fun n n' ↦ Step n n' ∧ ReadsFilled n n') (start Bool r) n ∧
    n.added = [[1], [2]] ∧ n.fetched = [some (1, [1])] ∧ n.Conserved 2 := by
  have hn : Relation.ReflTransGen (fun n n' ↦ Step n n' ∧ ReadsFilled n n')
      (start Bool ⟨2, [none, none], [0, 0], 0, 0, 2, 0⟩) _ :=
    Relation.ReflTransGen.refl
      |>.tail ⟨.waitEmpty (p := false) [1] rfl rfl, readsFilled_of_ne (by simp [start])⟩
      |>.tail ⟨.claimProduce (p := false) rfl rfl, readsFilled_of_ne (by simp [start])⟩
      |>.tail ⟨.waitEmpty (p := true) [2] rfl rfl, readsFilled_of_ne (by simp [start])⟩
      |>.tail ⟨.claimProduce (p := true) rfl rfl, readsFilled_of_ne (by simp [start])⟩
      |>.tail ⟨.store (p := true) rfl rfl, readsFilled_of_ne (by simp [start])⟩
      |>.tail ⟨.postFull (p := true) rfl, readsFilled_of_ne (by simp [start])⟩
      |>.tail ⟨.store (p := false) rfl rfl, readsFilled_of_ne (by simp [start])⟩
      |>.tail ⟨.waitFull rfl rfl, readsFilled_of_ne (by simp [start])⟩
      |>.tail ⟨.claimConsume rfl rfl, readsFilled_of_ne (by simp)⟩
      |>.tail ⟨.take rfl rfl, fun i _ _ p m ↦ by cases p <;> simp⟩
      |>.tail ⟨.postEmpty rfl, readsFilled_of_ne (by simp)⟩
  obtain ⟨r, hinit, hconserve⟩ : ∃ r, FifoRing.initializeRing 2 [some [9], none] [7, 7] = .ok r ∧
      ∀ n : RingNet Bool, Relation.ReflTransGen (fun n n' ↦ Step n n' ∧ ReadsFilled n n')
        (start Bool r) n → n.Conserved 2 :=
    several_producers_conserve (by decide) (by decide) (by decide)
  cases hinit
  exact ⟨_, _, rfl, hn, rfl, rfl, hconserve _ hn⟩

/-- The thread that came second finishes first, and `Fetch` goes to the slot of the other: it
returns `-1` and keeps the slot.  When all calls have returned, the message of the first thread has
not been fetched, nothing counts it, and the next `Add` writes over it. -/
theorem overtaken_add_lost : ∃ (r : FifoRing) (n : RingNet Bool),
    FifoRing.initializeRing 2 [none, none] [0, 0] = .ok r ∧
    Relation.ReflTransGen Step (start Bool r) n ∧
    n.added = [[1], [2]] ∧ n.fetched = [none, some (1, [2])] ∧
    (∀ p, n.producer p = .idle) ∧ n.consumer = .idle ∧ n.ring.emptySem + n.ring.fullSem = 1 ∧
    n.ring.producePoint = 0 ∧ n.ring.ring = [some [1], none] ∧ ¬ n.Conserved 2 := by
  have hn : Relation.ReflTransGen Step (start Bool ⟨2, [none, none], [0, 0], 0, 0, 2, 0⟩) _ :=
    Relation.ReflTransGen.refl
      |>.tail (.waitEmpty (p := false) [1] rfl rfl) |>.tail (.claimProduce (p := false) rfl rfl)
      |>.tail (.waitEmpty (p := true) [2] rfl rfl) |>.tail (.claimProduce (p := true) rfl rfl)
      |>.tail (.store (p := true) rfl rfl) |>.tail (.postFull (p := true) rfl)
      |>.tail (.waitFull rfl rfl) |>.tail (.claimConsume rfl rfl) |>.tail (.fail rfl rfl)
      |>.tail (.store (p := false) rfl rfl) |>.tail (.postFull (p := false) rfl)
      |>.tail (.waitFull rfl rfl) |>.tail (.claimConsume rfl rfl) |>.tail (.take rfl rfl)
      |>.tail (.postEmpty rfl)
  refine ⟨_, _, rfl, hn, rfl, rfl, fun p ↦ by cases p <;> rfl, rfl, rfl, rfl, rfl, fun hcons ↦ ?_⟩
  obtain ⟨m, -, hm⟩ := hcons.fetched 0 none rfl
  simp at hm

end RingNet

end Rpscc
