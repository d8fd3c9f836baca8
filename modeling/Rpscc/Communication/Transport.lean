import Rpscc.Communication.Framing
import Rpscc.Communication.OneProducer
import Rpscc.Communication.Receivers

/-!
# From `Send` to `Receive`

A message goes a long way.  `Send` frames it and adds it to the ring of the sending communicator,
the thread of `Consume` fetches it from there, takes the frame off, looks up the address and hands
the rest to a socket; the socket of the receiver has it next, then the thread of `Produce`, which
adds it to the ring of the receiving communicator, from which `Receive` fetches it.

`TransportNet` is all of it, for any number of processes that send, with one thread that calls
`Send`, and of processes that receive, with one receiver.  Its steps are the atomic steps of the
threads (`RingNet.Step`).  The sockets are ØMQ's: what one process pushes to one address comes out
there in the same order, once, and what several processes push may be mixed.

All rings have two slots or more, the frames are shorter than the buffers, and the buffer that
`Consume` fetches into ends with a zero at the start.

* `TransportNet.transport_fifo`: between any two processes this is a first in, first out channel.
  Of what one has sent to the other, in the order of the calls, a first part has been received, and
  the rest is under way, piece by piece in the places it can be in.
* `TransportNet.transport_delivers`: it does not stop before everything has been received.
-/

set_option autoImplicit false

namespace Rpscc

open Function (update)

/-- A process that sends: its ring, the `static` variables of `Consume`, how many of the messages
that have been fetched it has dealt with, and the calls of `Send`. -/
structure SenderProcess (size : ℕ) where
  ring : RingNet Unit
  statics : ConsumeStatics size
  consumed : ℕ
  calls : List (Int × Bytes)

/-- A process that receives. -/
structure ReceiverProcess where
  statics : ProduceStatics
  phase : ProducePhase
  ring : RingNet Unit

/-- The processes and the sockets between them: `wire a addr` is what process `a` has pushed to an
address and nobody has received, and `arrived b` what process `b` has received, with where it came
from. -/
structure TransportNet (α β : Type) (size : ℕ) where
  sender : α → SenderProcess size
  wire : α → String → List Bytes
  receiver : β → ReceiverProcess
  arrived : β → List (α × Bytes)

/-- The message a thread is about to add. -/
def AddPhase.begins : AddPhase → List Bytes
  | .waited m => [m]
  | .idle | .claimed _ _ | .stored => []

/-- A pass of `Consume`, on the oldest message that it has fetched and not dealt with: the message
goes to its address, or nowhere if it has none. -/
def SenderProcess.pass {size : ℕ} (c : Communicator) (s : SenderProcess size) :
    Option (Except Fault (SenderProcess size × Option (String × Bytes))) :=
  match s.ring.fetched[s.consumed]? with
  | some (some fetched) => some do
    let statics ← s.statics.consume fetched.2
    let s : SenderProcess size := { s with statics := statics, consumed := s.consumed + 1 }
    match c.idToAddr statics.dstId with
    | none => .ok (s, none)
    | some addr => do
      let m ← statics.handedOn
      .ok (s, some (addr, m))
  | _ => none

namespace TransportNet

variable {α β : Type} {size : ℕ}

/-- Put a message on the wire of a process. -/
def putOn (wire : String → List Bytes) : Option (String × Bytes) → String → List Bytes
  | none => wire
  | some (addr, m) => update wire addr (wire addr ++ [m])

/-- A step of one of the threads.  `book a` is the address book of process `a`, and process `b`
receives at `addr b`. -/
inductive Step [DecidableEq α] [DecidableEq β] (book : α → Communicator) (addr : β → String) :
    TransportNet α β size → TransportNet α β size → Prop
  | send {n : TransportNet α β size} {a : α} {dstId : Int} {message m : Bytes}
      {mix : Buffer size} {r : RingNet Unit} (hsend : Rpscc.send mix dstId message = .ok m)
      (hidle : (n.sender a).ring.producer () = .idle) (hr : (n.sender a).ring.Step r)
      (hbegins : r.producer () = .waited m) :
      Step book addr n { n with
        sender := update n.sender a { n.sender a with
          ring := r
          calls := (n.sender a).calls ++ [(dstId, message)] } }
  | sending {n : TransportNet α β size} {a : α} {r : RingNet Unit}
      (hr : (n.sender a).ring.Step r)
      (hadd : (n.sender a).ring.producer () = .idle → r.producer () = .idle)
      (hfetch : (n.sender a).ring.consumer = .idle → r.consumer ≠ .idle →
        (n.sender a).consumed = (n.sender a).ring.fetched.length) :
      Step book addr n { n with
        sender := update n.sender a { n.sender a with ring := r } }
  | pass {n : TransportNet α β size} {a : α} {s : SenderProcess size}
      {out : Option (String × Bytes)} (hpass : (n.sender a).pass (book a) = some (.ok (s, out))) :
      Step book addr n { n with
        sender := update n.sender a s
        wire := update n.wire a (putOn (n.wire a) out) }
  | arrive {n : TransportNet α β size} {a : α} {b : β} {m : Bytes} {rest : List Bytes}
      {s : ProduceStatics} (hm : n.wire a (addr b) = m :: rest)
      (hphase : (n.receiver b).phase = .receiving)
      (hidle : (n.receiver b).ring.producer () = .idle)
      (hs : (n.receiver b).statics.receive m = .ok s) :
      Step book addr n { n with
        wire := update n.wire a (update (n.wire a) (addr b) rest)
        receiver := update n.receiver b { n.receiver b with statics := s, phase := .adding }
        arrived := update n.arrived b (n.arrived b ++ [(a, m)]) }
  | add {n : TransportNet α β size} {b : β} {m : Bytes} {r : RingNet Unit}
      (hphase : (n.receiver b).phase = .adding) (hm : (n.receiver b).statics.added = .ok m)
      (hr : (n.receiver b).ring.Step r) (hidle : (n.receiver b).ring.producer () = .idle)
      (hbegins : r.producer () = .waited m) :
      Step book addr n { n with
        receiver := update n.receiver b { n.receiver b with phase := .receiving, ring := r } }
  | receiving {n : TransportNet α β size} {b : β} {r : RingNet Unit}
      (hr : (n.receiver b).ring.Step r)
      (hadd : (n.receiver b).ring.producer () = .idle → r.producer () = .idle) :
      Step book addr n { n with
        receiver := update n.receiver b { n.receiver b with ring := r } }

/-- Nothing has been sent yet, and the arrays and buffers hold anything. -/
def start (senders : α → FifoRing × ConsumeStatics size)
    (receivers : β → FifoRing × ProduceStatics) : TransportNet α β size where
  sender := fun a ↦ ⟨RingNet.start Unit (senders a).1, (senders a).2, 0, []⟩
  wire := fun _ _ ↦ []
  receiver := fun b ↦ ⟨(receivers b).2, .receiving, RingNet.start Unit (receivers b).1⟩
  arrived := fun _ ↦ []

end TransportNet

/-! ## The rings -/

namespace RingNet

variable {n n' : RingNet Unit}

/-- The beginning of a call of `Add` changes nothing else. -/
theorem Step.begin {m : Bytes} (h : Step n n') (hidle : n.producer () = .idle)
    (hbegins : n'.producer () = .waited m) : n'.added = n.added ∧ n'.fetched = n.fetched := by
  cases h with
  | waitEmpty message hp hr => exact ⟨rfl, rfl⟩
  | claimProduce hp hr | store hp hr | postFull hp =>
    rw [hp] at hidle
    cases hidle
  | waitFull hc hr | claimConsume hc hr | take hc hr | fail hc hr | postEmpty hc =>
    rw [hidle] at hbegins
    cases hbegins

/-- Every other step leaves what is added, and about to be added, as it is. -/
theorem Step.added_begins (h : Step n n')
    (hadd : n.producer () = .idle → n'.producer () = .idle) :
    n'.added ++ (n'.producer ()).begins = n.added ++ (n.producer ()).begins := by
  cases h with
  | waitEmpty message hp hr => simp [hp] at hadd
  | claimProduce hp hr => simp [hp, AddPhase.begins]
  | store hp hr | postFull hp => simp [hp, AddPhase.begins]
  | waitFull hc hr | claimConsume hc hr | take hc hr | fail hc hr | postEmpty hc => rfl

theorem Step.length_fetched_le (h : Step n n') : n.fetched.length ≤ n'.fetched.length := by
  cases h with
  | fail hc hr | postEmpty hc => simp
  | waitEmpty message hp hr | claimProduce hp hr | store hp hr | postFull hp | waitFull hc hr
  | claimConsume hc hr | take hc hr => exact Nat.le_refl _

/-- What has been fetched is the first of what has been added. -/
theorem Inv.fetched_eq {N : ℕ} (h : Inv N n) : n.fetched
    = (n.added.take n.fetched.length).map fun m ↦ some ((m.length : Int), m) := by
  refine List.ext_getElem? fun i ↦ ?_
  rw [List.getElem?_map]
  rcases Nat.lt_or_ge i n.fetched.length with hi | hi
  · obtain ⟨m, hm, hr⟩ := h.fetched i _ (List.getElem?_eq_getElem hi)
    rw [List.getElem?_take_of_lt hi, hm, List.getElem?_eq_getElem hi, hr]
    rfl
  · rw [List.getElem?_eq_none hi, List.getElem?_eq_none (by rw [List.length_take]; omega)]
    rfl

/-- A call of `Add` that has begun goes on. -/
theorem Inv.add_enabled {N : ℕ} (h : Inv N n) (hN : 0 < N) (hp : n.producer () ≠ .idle) :
    ∃ n', Step n n' ∧ n'.consumer = n.consumer := by
  cases hphase : n.producer () with
  | idle => exact absurd hphase hp
  | waited m =>
    exact ⟨_, .claimProduce hphase (FifoRing.claimProduce_eq hN h.ringSize h.producePoint), rfl⟩
  | claimed m i =>
    obtain ⟨rfl, -, -⟩ := h.claimed_eq hphase
    have hlt : n.stored % N < N := Nat.mod_lt _ hN
    exact ⟨_, .store hphase (FifoRing.store_eq (h.length_ring.symm ▸ hlt)
      (h.length_dataSizes.symm ▸ hlt) m), rfl⟩
  | stored => exact ⟨_, .postFull hphase, rfl⟩

/-- So does a call of `Fetch`. -/
theorem Inv.fetch_enabled {N : ℕ} (h : Inv N n) (hN : 0 < N) (hc : n.consumer ≠ .idle) :
    ∃ n', Step n n' ∧ n'.producer = n.producer := by
  cases hphase : n.consumer with
  | idle => exact absurd hphase hc
  | waited =>
    exact ⟨_, .claimConsume hphase (FifoRing.claimConsume_eq hN h.ringSize h.consumePoint), rfl⟩
  | claimed i =>
    obtain ⟨m, -, htake⟩ := h.take_claimed hphase
    exact ⟨_, .take hphase htake, rfl⟩
  | taken m => exact ⟨_, .postEmpty hphase, rfl⟩

/-- When nobody is in the middle of a call, a call of `Fetch` can begin unless everything has been
fetched, and a call of `Add` when everything has. -/
theorem Inv.begin_enabled {N : ℕ} (h : Inv N n) (hN : 0 < N) (hp : n.producer () = .idle)
    (hc : n.consumer = .idle) :
    (∃ n', Step n n' ∧ n'.producer = n.producer) ∨ n.fetched.length = n.added.length ∧
      ∀ m, ∃ n', Step n n' ∧ n'.producer () = .waited m := by
  have hfull := h.fullSem
  have hempty := h.emptySem
  simp only [hp, hc, AddPhase.begun, AddPhase.unposted, FetchPhase.begun] at hfull hempty
  rcases Nat.eq_zero_or_pos n.ring.fullSem with hzero | hpos
  · refine .inr ⟨by omega, fun m ↦ ?_⟩
    have hwait : n.ring.waitEmpty = some { n.ring with emptySem := n.ring.emptySem - 1 } :=
      if_neg (by omega)
    exact ⟨_, .waitEmpty m hp hwait, by simp⟩
  · have hwait : n.ring.waitFull = some { n.ring with fullSem := n.ring.fullSem - 1 } :=
      if_neg (by omega)
    exact .inl ⟨_, .waitFull hc hwait, rfl⟩

end RingNet

/-! ## One process -/

theorem ProduceStatics.length_receive {s s' : ProduceStatics} {m : Bytes}
    (h : s.receive m = .ok s') : s'.message.length = s.message.length := by
  rw [receive] at h
  split at h
  · cases h
    exact Checked.length_write (by rw [List.length_append, List.length_singleton]; omega)
  · cases h

/-- The destination is an `int`, and the frame is shorter than the buffer. -/
def Fits (size : ℕ) (m : Int × Bytes) : Prop :=
  Checked.IsInt32 m.1 ∧ (header m.1).length + m.2.length < size

namespace SenderProcess

variable {size N : ℕ} {s : SenderProcess size}

theorem calls_pass {c : Communicator} {s' : SenderProcess size} {out : Option (String × Bytes)}
    (h : s.pass c = some (.ok (s', out))) : s'.calls = s.calls := by
  rw [pass] at h
  split at h
  · obtain ⟨statics, -, h⟩ := Checked.bind_eq_ok.1 (Option.some.inj h)
    split at h
    · cases h
      rfl
    · obtain ⟨m, -, h⟩ := Checked.bind_eq_ok.1 h
      cases h
      rfl
  · cases h

/-- The ring carries the frames of the calls, and the zero that ends the buffer of `Consume` is
there. -/
structure Inv (N : ℕ) (s : SenderProcess size) : Prop where
  ring : s.ring.Inv N
  ended : s.statics.Ended
  frames : List.Forall₂ (fun m bytes ↦ ∃ mix : Buffer size, send mix m.1 m.2 = .ok bytes) s.calls
    (s.ring.added ++ (s.ring.producer ()).begins)
  consumed_le : s.consumed ≤ s.ring.fetched.length

/-- The message that `Consume` deals with is that of the next call. -/
theorem Inv.pass_eq (h : s.Inv N) (hfits : ∀ m ∈ s.calls, Fits size m) (c : Communicator)
    (hlt : s.consumed < s.ring.fetched.length) : ∃ m statics, s.calls[s.consumed]? = some m ∧
      statics.Ended ∧ s.pass c = some (.ok (
        { s with statics := statics, consumed := s.consumed + 1 },
        (c.idToAddr m.1).map fun addr ↦ (addr, m.2))) := by
  obtain ⟨bytes, hadded, hfetched⟩ := h.ring.fetched _ _ (List.getElem?_eq_getElem hlt)
  have hbytes : (s.ring.added ++ (s.ring.producer ()).begins)[s.consumed]? = some bytes := by
    rw [List.getElem?_append_left (List.getElem?_eq_some_iff.1 hadded).1]
    exact hadded
  obtain ⟨hpos, hget⟩ := List.getElem?_eq_some_iff.1 hbytes
  have hcall : s.consumed < s.calls.length := h.frames.length_eq ▸ hpos
  have hframe := List.Forall₂.get h.frames hcall hpos
  obtain ⟨mix, hsend⟩ := hframe
  obtain ⟨⟨hlow, hhigh⟩, hfit⟩ := hfits _ (List.getElem_mem hcall)
  obtain ⟨bytes', statics, hsend', hconsume, hid, -, hmessage⟩ :=
    send_consume mix s.statics hlow hhigh hfit.le (by omega)
      (List.mem_append_right _ (h.ended.zero_mem hfit))
  have hlen := congrArg List.length (send_header (by omega) hfit.le hsend')
  rw [List.length_append] at hlen
  have hended := h.ended.consume (by omega) hconsume
  obtain rfl : bytes = bytes' :=
    hget.symm.trans (Except.ok.inj (hsend.symm.trans hsend'))
  refine ⟨_, statics, List.getElem?_eq_getElem hcall, hended, ?_⟩
  rw [pass, List.getElem?_eq_getElem hlt, hfetched]
  simp only [hconsume, Checked.ok_bind, hid]
  cases hto : c.idToAddr (s.calls[s.consumed]).1 with
  | none => rfl
  | some addr =>
    simp only [hmessage, Checked.ok_bind]
    rfl

/-- No more has been fetched than has been sent. -/
theorem Inv.consumed_le_calls (h : s.Inv N) : s.consumed ≤ s.calls.length := by
  have hle := h.consumed_le
  have hfull := h.ring.fullSem
  rw [h.frames.length_eq, List.length_append]
  omega

theorem Inv.send (h : s.Inv N) (hN : 0 < N) {dstId : Int} {message m : Bytes} {mix : Buffer size}
    {r : RingNet Unit} (hsend : Rpscc.send mix dstId message = .ok m)
    (hidle : s.ring.producer () = .idle) (hr : s.ring.Step r)
    (hbegins : r.producer () = .waited m) :
    Inv N { s with ring := r, calls := s.calls ++ [(dstId, message)] } where
  ring := h.ring.step hN hr
  ended := h.ended
  frames := by
    obtain ⟨hadded, -⟩ := hr.begin hidle hbegins
    have hold := h.frames
    rw [hidle, AddPhase.begins, List.append_nil] at hold
    rw [hadded, hbegins]
    exact List.rel_append hold (.cons ⟨mix, hsend⟩ .nil)
  consumed_le := h.consumed_le.trans hr.length_fetched_le

theorem Inv.sending (h : s.Inv N) (hN : 0 < N) {r : RingNet Unit} (hr : s.ring.Step r)
    (hadd : s.ring.producer () = .idle → r.producer () = .idle) : Inv N { s with ring := r } where
  ring := h.ring.step hN hr
  ended := h.ended
  frames := by
    rw [hr.added_begins hadd]
    exact h.frames
  consumed_le := h.consumed_le.trans hr.length_fetched_le

theorem Inv.pass (h : s.Inv N) (hfits : ∀ m ∈ s.calls, Fits size m) {c : Communicator}
    {s' : SenderProcess size} {out : Option (String × Bytes)}
    (hpass : s.pass c = some (.ok (s', out))) : s'.Inv N ∧ s'.calls = s.calls ∧
      s'.consumed = s.consumed + 1 ∧ ∃ m, s.calls[s.consumed]? = some m ∧
        out = (c.idToAddr m.1).map fun addr ↦ (addr, m.2) := by
  have hlt : s.consumed < s.ring.fetched.length := by
    by_contra hge
    rw [SenderProcess.pass, List.getElem?_eq_none (by omega)] at hpass
    cases hpass
  obtain ⟨m, statics, hm, hended, heq⟩ := h.pass_eq hfits c hlt
  rw [heq] at hpass
  cases hpass
  exact ⟨⟨h.ring, hended, h.frames, hlt⟩, rfl, rfl, m, hm, rfl⟩

end SenderProcess

namespace ReceiverProcess

variable {N : ℕ} {s : ReceiverProcess} {arrived : List Bytes}

/-- The ring is given what has arrived. -/
structure Inv (N : ℕ) (s : ReceiverProcess) (arrived : List Bytes) : Prop where
  ring : s.ring.Inv N
  receiving : s.phase = .receiving → s.ring.added ++ (s.ring.producer ()).begins = arrived
  adding : s.phase = .adding → s.ring.producer () = .idle ∧
    ∃ m, s.statics.added = .ok m ∧ s.ring.added ++ [m] = arrived

/-- What has been fetched is the first of what has arrived. -/
theorem Inv.fetched_eq (h : s.Inv N arrived) : s.ring.fetched
    = (arrived.take s.ring.fetched.length).map fun m ↦ some ((m.length : Int), m) := by
  have hpre : s.ring.added <+: arrived := by
    cases hphase : s.phase with
    | receiving => exact ⟨_, h.receiving hphase⟩
    | adding =>
      obtain ⟨-, m, -, harrived⟩ := h.adding hphase
      exact ⟨[m], harrived⟩
  have hle : s.ring.fetched.length ≤ s.ring.added.length := by
    have hfull := h.ring.fullSem
    omega
  obtain ⟨rest, rfl⟩ := hpre
  rw [List.take_append_of_le_length hle]
  exact h.ring.fetched_eq

theorem Inv.arrive (h : s.Inv N arrived) {m : Bytes} {statics : ProduceStatics}
    (hphase : s.phase = .receiving) (hidle : s.ring.producer () = .idle)
    (hs : s.statics.receive m = .ok statics) :
    Inv N { s with statics := statics, phase := .adding } (arrived ++ [m]) where
  ring := h.ring
  receiving := fun hno ↦ by cases hno
  adding := by
    have hold := h.receiving hphase
    rw [hidle, AddPhase.begins, List.append_nil] at hold
    exact fun _ ↦ ⟨hidle, m, ProduceStatics.added_receive hs, by rw [hold]⟩

theorem Inv.add (h : s.Inv N arrived) (hN : 0 < N) {m : Bytes} {r : RingNet Unit}
    (hphase : s.phase = .adding) (hm : s.statics.added = .ok m) (hr : s.ring.Step r)
    (hidle : s.ring.producer () = .idle) (hbegins : r.producer () = .waited m) :
    Inv N { s with phase := .receiving, ring := r } arrived where
  ring := h.ring.step hN hr
  receiving := by
    obtain ⟨-, m', hm', harrived⟩ := h.adding hphase
    obtain rfl := Except.ok.inj (hm.symm.trans hm')
    obtain ⟨hadded, -⟩ := hr.begin hidle hbegins
    intro _
    rw [hadded, hbegins]
    exact harrived
  adding := fun hno ↦ by cases hno

theorem Inv.receive (h : s.Inv N arrived) (hN : 0 < N) {r : RingNet Unit} (hr : s.ring.Step r)
    (hadd : s.ring.producer () = .idle → r.producer () = .idle) :
    Inv N { s with ring := r } arrived where
  ring := h.ring.step hN hr
  receiving := fun hphase ↦ (hr.added_begins hadd).trans (h.receiving hphase)
  adding := by
    intro hphase
    obtain ⟨hidle, m, hm, harrived⟩ := h.adding hphase
    have hbegins := hr.added_begins hadd
    rw [hadd hidle, hidle] at hbegins
    simp only [AddPhase.begins, List.append_nil] at hbegins
    exact ⟨hadd hidle, m, hm, hbegins ▸ harrived⟩

end ReceiverProcess

namespace TransportNet

variable {α β : Type} [DecidableEq α] [DecidableEq β] {size N : ℕ} {book : α → Communicator}
  {addr : β → String} {n n' : TransportNet α β size}

/-! ## Between two processes -/

/-- What some calls send to an address. -/
def sentTo (c : Communicator) (addr : String) (calls : List (Int × Bytes)) : List Bytes :=
  calls.filterMap fun m ↦ if c.idToAddr m.1 = some addr then some m.2 else none

/-- What has come from process `a`. -/
def cameFrom (a : α) (arrived : List (α × Bytes)) : List Bytes :=
  arrived.filterMap fun e ↦ if e.1 = a then some e.2 else none

/-- The invariant: of the calls that `Consume` has dealt with, what has not arrived is on the
wire. -/
structure Inv (N : ℕ) (book : α → Communicator) (addr : β → String) (n : TransportNet α β size) :
    Prop where
  sender : ∀ a, (n.sender a).Inv N
  receiver : ∀ b, (n.receiver b).Inv N ((n.arrived b).map Prod.snd)
  link : ∀ a b, cameFrom a (n.arrived b) ++ n.wire a (addr b)
    = sentTo (book a) (addr b) ((n.sender a).calls.take (n.sender a).consumed)

omit [DecidableEq α] [DecidableEq β] in
@[simp]
theorem putOn_map (wire : String → List Bytes) (addr : String) (m : Bytes) (dst : Option String) :
    putOn wire (dst.map fun addr ↦ (addr, m)) addr
      = wire addr ++ if dst = some addr then [m] else [] := by
  cases dst with
  | none => simp [putOn]
  | some addr' =>
    by_cases heq : addr' = addr
    · subst heq
      simp [putOn]
    · simp [putOn, heq, Function.update_of_ne (Ne.symm heq)]

omit [DecidableEq α] [DecidableEq β] in
@[simp]
theorem sentTo_take_succ (c : Communicator) (addr : String) {calls : List (Int × Bytes)} {k : ℕ}
    {m : Int × Bytes} (hm : calls[k]? = some m) : sentTo c addr (calls.take (k + 1))
      = sentTo c addr (calls.take k) ++ if c.idToAddr m.1 = some addr then [m.2] else [] := by
  rw [List.take_add_one, hm, sentTo, sentTo, List.filterMap_append]
  split <;> simp [*]

@[simp] theorem cameFrom_concat (a a' : α) (arrived : List (α × Bytes)) (m : Bytes) :
    cameFrom a (arrived ++ [(a', m)]) = cameFrom a arrived ++ if a' = a then [m] else [] := by
  rw [cameFrom, cameFrom, List.filterMap_append]
  split <;> simp [*]

omit [DecidableEq β] in
/-- A step of process `a`, which sends. -/
theorem Inv.of_sender (h : n.Inv N book addr) {a : α} {s : SenderProcess size} (hinv : s.Inv N)
    (wire : String → List Bytes) (hlink : ∀ b, cameFrom a (n.arrived b) ++ wire (addr b)
      = sentTo (book a) (addr b) (s.calls.take s.consumed)) :
    Inv N book addr { n with sender := update n.sender a s, wire := update n.wire a wire } := by
  refine ⟨fun a' ↦ ?_, h.receiver, fun a' b ↦ ?_⟩
  · by_cases ha : a' = a
    · subst ha
      simp only [Function.update_self]
      exact hinv
    · simp only [Function.update_of_ne ha]
      exact h.sender a'
  · by_cases ha : a' = a
    · subst ha
      simp only [Function.update_self]
      exact hlink b
    · simp only [Function.update_of_ne ha]
      exact h.link a' b

/-- A step of process `b`, which receives. -/
theorem Inv.of_receiver (h : n.Inv N book addr) {b : β} {s : ReceiverProcess}
    (hinv : s.Inv N ((n.arrived b).map Prod.snd)) :
    Inv N book addr { n with receiver := update n.receiver b s } := by
  refine ⟨h.sender, fun b' ↦ ?_, h.link⟩
  by_cases hb : b' = b
  · subst hb
    simp only [Function.update_self]
    exact hinv
  · simp only [Function.update_of_ne hb]
    exact h.receiver b'

theorem Inv.step (hN : 0 < N) (haddr : Function.Injective addr) (h : n.Inv N book addr)
    (hfits : ∀ a, ∀ m ∈ (n.sender a).calls, Fits size m) (hs : Step book addr n n') :
    n'.Inv N book addr := by
  cases hs with
  | @send a dstId message m mix r hsend hidle hr hbegins =>
    have hnext := h.of_sender ((h.sender a).send hN hsend hidle hr hbegins) (n.wire a)
      fun b ↦ by
        dsimp only
        rw [List.take_append_of_le_length (h.sender a).consumed_le_calls]
        exact h.link a b
    rwa [Function.update_eq_self] at hnext
  | @sending a r hr hadd hfetch =>
    have hnext := h.of_sender ((h.sender a).sending hN hr hadd) (n.wire a) (h.link a)
    rwa [Function.update_eq_self] at hnext
  | @pass a s out hpass =>
    obtain ⟨hinv, hcalls, hconsumed, m, hm, rfl⟩ := (h.sender a).pass (hfits a) hpass
    refine h.of_sender hinv _ fun b ↦ ?_
    rw [hcalls, hconsumed, sentTo_take_succ _ _ hm, putOn_map, ← List.append_assoc, h.link a b]
  | @arrive a b m rest s hm hphase hidle hs =>
    refine ⟨h.sender, fun b' ↦ ?_, fun a' b' ↦ ?_⟩
    · by_cases hb : b' = b
      · subst hb
        simp only [Function.update_self, List.map_append]
        exact (h.receiver b').arrive hphase hidle hs
      · simp only [Function.update_of_ne hb]
        exact h.receiver b'
    · have hold := h.link a' b'
      by_cases hb : b' = b
      · subst hb
        simp only [Function.update_self]
        rw [cameFrom_concat]
        by_cases ha : a' = a
        · subst ha
          rw [Function.update_self, Function.update_self, if_pos rfl, ← hold, hm]
          simp
        · rw [Function.update_of_ne ha, if_neg (Ne.symm ha)]
          simpa using hold
      · simp only [Function.update_of_ne hb]
        by_cases ha : a' = a
        · subst ha
          rw [Function.update_self, Function.update_of_ne fun heq ↦ hb (haddr heq)]
          exact hold
        · rw [Function.update_of_ne ha]
          exact hold
  | @add b m r hphase hm hr hidle hbegins =>
    exact h.of_receiver ((h.receiver b).add hN hphase hm hr hidle hbegins)
  | @receiving b r hr hadd => exact h.of_receiver ((h.receiver b).receive hN hr hadd)

/-- Nobody is in the middle of anything, and nothing is left to do. -/
structure Quiet (addr : β → String) (n : TransportNet α β size) : Prop where
  sender : ∀ a, (n.sender a).ring.producer () = .idle ∧ (n.sender a).ring.consumer = .idle ∧
    (n.sender a).ring.ring.fullSem = 0 ∧ (n.sender a).consumed = (n.sender a).ring.fetched.length
  wire : ∀ a b, n.wire a (addr b) = []
  receiver : ∀ b, (n.receiver b).phase = .receiving ∧
    (n.receiver b).ring.producer () = .idle ∧ (n.receiver b).ring.consumer = .idle ∧
    (n.receiver b).ring.ring.fullSem = 0

/-! ## Every run -/

/-- The calls of a process are never forgotten. -/
theorem Step.calls_isPrefix (hs : Step book addr n n') (a : α) :
    (n.sender a).calls <+: (n'.sender a).calls := by
  cases hs with
  | @send a' dstId message m mix r hsend hidle hr hbegins =>
    by_cases ha : a = a'
    · subst ha
      simp
    · simp [Function.update_of_ne ha]
  | @sending a' r hr hadd hfetch =>
    by_cases ha : a = a'
    · subst ha
      simp
    · simp [Function.update_of_ne ha]
  | @pass a' s out hpass =>
    by_cases ha : a = a'
    · subst ha
      simp [SenderProcess.calls_pass hpass]
    · simp [Function.update_of_ne ha]
  | arrive hm hphase hidle hs | add hphase hm hr hidle hbegins | receiving hr hadd =>
    exact List.prefix_rfl

variable {ringSize : Int} {senders : α → FifoRing × ConsumeStatics size}
  {receivers : β → FifoRing × ProduceStatics}

omit [DecidableEq β] in
theorem inv_start (hsenders : ∀ a, (senders a).1.Fresh N) (hended : ∀ a, (senders a).2.Ended)
    (hreceivers : ∀ b, (receivers b).1.Fresh N) :
    Inv N book addr (start senders receivers) where
  sender := by
    intro a
    exact ⟨.start (hsenders a).blank, hended a, .nil, Nat.le_refl _⟩
  receiver := by
    intro b
    exact ⟨.start (hreceivers b).blank, fun _ ↦ rfl, fun hno ↦ by cases hno⟩
  link := fun a b ↦ rfl

theorem Inv.reachable (hN : 0 < N) (hsenders : ∀ a, (senders a).1.Fresh N)
    (hended : ∀ a, (senders a).2.Ended) (hreceivers : ∀ b, (receivers b).1.Fresh N)
    (haddr : Function.Injective addr)
    (hn : Relation.ReflTransGen (Step book addr) (start senders receivers) n)
    (hfits : ∀ a, ∀ m ∈ (n.sender a).calls, Fits size m) : Inv N book addr n := by
  induction hn with
  | refl => exact inv_start hsenders hended hreceivers
  | tail _ hs ih =>
    have hfits' := fun a m hm ↦ hfits a m ((hs.calls_isPrefix a).subset hm)
    exact (ih hfits').step hN haddr hfits' hs

/-- **The transport is a channel**, first in, first out, between any two processes.  In every state
that can be reached, what `Receive` has returned are the first of the messages that have arrived,
each with its length.  What a process has sent to another, in the order of its calls, is what has
been received from it, then what waits in the ring of the receiver, what is on the wire, and what is
still in the hands of the sender: nothing is lost, doubled, mangled or overtaken. -/
theorem transport_fifo (hsize : 2 ≤ ringSize) (hsenders : ∀ a, (senders a).1.Fresh ringSize)
    (hended : ∀ a, (senders a).2.Ended) (hreceivers : ∀ b, (receivers b).1.Fresh ringSize)
    (haddr : Function.Injective addr)
    (hn : Relation.ReflTransGen (Step book addr) (start senders receivers) n)
    (hfits : ∀ a, ∀ m ∈ (n.sender a).calls, Fits size m) (a : α) (b : β) :
    let received := (n.receiver b).ring.fetched.length
    (n.receiver b).ring.fetched
        = ((n.arrived b).take received).map (fun e ↦ some ((e.2.length : Int), e.2)) ∧
      sentTo (book a) (addr b) (n.sender a).calls
        = cameFrom a ((n.arrived b).take received) ++ cameFrom a ((n.arrived b).drop received)
          ++ n.wire a (addr b)
          ++ sentTo (book a) (addr b) ((n.sender a).calls.drop (n.sender a).consumed) := by
  obtain ⟨N, rfl⟩ : ∃ N : ℕ, ringSize = N := ⟨ringSize.toNat, by omega⟩
  have h : Inv N book addr n := .reachable (by omega) hsenders hended hreceivers haddr hn hfits
  refine ⟨?_, ?_⟩
  · have hfetched := (h.receiver b).fetched_eq
    rw [← List.map_take, List.map_map] at hfetched
    exact hfetched
  · have hcalls : sentTo (book a) (addr b) (n.sender a).calls
        = sentTo (book a) (addr b) ((n.sender a).calls.take (n.sender a).consumed)
          ++ sentTo (book a) (addr b) ((n.sender a).calls.drop (n.sender a).consumed) := by
      rw [sentTo, sentTo, sentTo, ← List.filterMap_append, List.take_append_drop]
    have hcame : cameFrom a (n.arrived b)
        = cameFrom a ((n.arrived b).take (n.receiver b).ring.fetched.length)
          ++ cameFrom a ((n.arrived b).drop (n.receiver b).ring.fetched.length) := by
      rw [cameFrom, cameFrom, cameFrom, ← List.filterMap_append, List.take_append_drop]
    rw [hcalls, ← h.link a b, hcame]

/-- One process that sends to id `5`, which it knows to be at `b`. -/
def smallBook : Communicator := Communicator.empty.addIdAddr 5 "b"

/-- Some bytes, and a zero at the end. -/
def smallBuffer : Buffer 8 := ⟨List.replicate 7 7 ++ [0], rfl⟩

/-- A ring of two slots that has been initialised. -/
def smallRing (slot : Option Bytes) : FifoRing := ⟨2, [none, slot], [0, 0], 0, 0, 2, 0⟩

/-- Two such rings, with a block left in one of them. -/
def smallStart : TransportNet Unit Unit 8 :=
  start (fun _ ↦ (smallRing (some [9]), ⟨smallBuffer, smallBuffer, 3, 4⟩))
    fun _ ↦ (smallRing none, ⟨List.replicate 8 1, 0⟩)

/-- A message of two bytes, a comma among them, goes all the way. -/
theorem smallStart_reaches : ∃ n : TransportNet Unit Unit 8,
    Relation.ReflTransGen (Step (fun _ ↦ smallBook) fun _ ↦ "b") smallStart n ∧
      (n.sender ()).calls = [(5, [44, 0])] ∧ (n.receiver ()).ring.fetched = [some (2, [44, 0])] ∧
      n.arrived () = [((), [44, 0])] ∧ Quiet (fun _ ↦ "b") n := by
  have hn : Relation.ReflTransGen (Step (fun _ ↦ smallBook) fun _ ↦ "b") smallStart _ :=
    Relation.ReflTransGen.refl
      |>.tail (.send (a := ())
        (show Rpscc.send smallBuffer 5 [44, 0] = .ok [53, 44, 44, 0] from rfl) rfl
        (.waitEmpty (p := ()) [53, 44, 44, 0] rfl rfl) rfl)
      |>.tail (.sending (a := ()) (.claimProduce (p := ()) rfl rfl) (by decide) (by decide))
      |>.tail (.sending (a := ()) (.store (p := ()) rfl rfl) (by decide) (by decide))
      |>.tail (.sending (a := ()) (.postFull (p := ()) rfl) (by decide) (by decide))
      |>.tail (.sending (a := ()) (.waitFull rfl rfl) (by decide) (by decide))
      |>.tail (.sending (a := ()) (.claimConsume rfl rfl) (by decide) (by decide))
      |>.tail (.sending (a := ()) (.take rfl rfl) (by decide) (by decide))
      |>.tail (.sending (a := ()) (.postEmpty rfl) (by decide) (by decide))
      |>.tail (.pass (a := ()) rfl)
      |>.tail (.arrive (a := ()) (b := ()) (m := [44, 0]) rfl rfl rfl rfl)
      |>.tail (.add (b := ()) rfl rfl (.waitEmpty (p := ()) [44, 0] rfl rfl) rfl rfl)
      |>.tail (.receiving (b := ()) (.claimProduce (p := ()) rfl rfl) (by decide))
      |>.tail (.receiving (b := ()) (.store (p := ()) rfl rfl) (by decide))
      |>.tail (.receiving (b := ()) (.postFull (p := ()) rfl) (by decide))
      |>.tail (.receiving (b := ()) (.waitFull rfl rfl) (by decide))
      |>.tail (.receiving (b := ()) (.claimConsume rfl rfl) (by decide))
      |>.tail (.receiving (b := ()) (.take rfl rfl) (by decide))
      |>.tail (.receiving (b := ()) (.postEmpty rfl) (by decide))
  exact ⟨_, hn, rfl, rfl, rfl, fun _ ↦ ⟨rfl, rfl, rfl, rfl⟩, fun _ _ ↦ rfl,
    fun _ ↦ ⟨rfl, rfl, rfl, rfl⟩⟩

theorem smallBuffer_ended : (⟨smallBuffer, smallBuffer, 3, 4⟩ : ConsumeStatics 8).Ended := rfl

theorem smallRing_fresh (slot : Option Bytes) : (smallRing slot).Fresh 2 :=
  ⟨[some [9], slot], [7, 7], rfl, rfl, rfl⟩

theorem fits_small : Fits 8 (5, [44, 0]) := ⟨by decide, by decide⟩

/-- What has come out is what was sent. -/
theorem transport_fifo_small : ∃ n : TransportNet Unit Unit 8,
    Relation.ReflTransGen (Step (fun _ ↦ smallBook) fun _ ↦ "b") smallStart n ∧
      (n.receiver ()).ring.fetched = [some (2, [44, 0])] ∧
      sentTo smallBook "b" (n.sender ()).calls
        = cameFrom () ((n.arrived ()).take 1) ++ cameFrom () ((n.arrived ()).drop 1)
          ++ n.wire () "b" ++ sentTo smallBook "b"
            ((n.sender ()).calls.drop (n.sender ()).consumed) := by
  obtain ⟨n, hn, hcalls, hfetched, -, -⟩ := smallStart_reaches
  have hfits : ∀ a, ∀ m ∈ (n.sender a).calls, Fits 8 m := by
    intro a m hm
    rw [show a = () from rfl, hcalls, List.mem_singleton] at hm
    exact hm ▸ fits_small
  obtain ⟨-, heq⟩ := transport_fifo (le_refl 2) (fun _ ↦ smallRing_fresh _)
    (fun _ ↦ smallBuffer_ended) (fun _ ↦ smallRing_fresh _) (fun _ _ _ ↦ rfl) hn hfits () ()
  rw [hfetched] at heq
  exact ⟨n, hn, hfetched, heq⟩

/-! ## It does not stop -/

/-- The buffers that messages are received into keep their sizes. -/
theorem length_message (hn : Relation.ReflTransGen (Step book addr) (start senders receivers) n)
    (b : β) : (n.receiver b).statics.message.length = (receivers b).2.message.length := by
  induction hn with
  | refl => rfl
  | tail _ hs ih =>
    rw [← ih]
    cases hs with
    | @arrive a b' m rest s hm hphase hidle hs =>
      by_cases hb : b = b'
      · subst hb
        simp only [Function.update_self]
        exact ProduceStatics.length_receive hs
      · simp only [Function.update_of_ne hb]
    | @add b' m r hphase hm hr hidle hbegins =>
      by_cases hb : b = b'
      · subst hb
        simp only [Function.update_self]
      · simp only [Function.update_of_ne hb]
    | @receiving b' r hr hadd =>
      by_cases hb : b = b'
      · subst hb
        simp only [Function.update_self]
      · simp only [Function.update_of_ne hb]
    | send hsend hidle hr hbegins | sending hr hadd hfetch | pass hpass => rfl

/-- Nothing more can happen unless somebody calls `Send`. -/
def Stopped (book : α → Communicator) (addr : β → String) (n : TransportNet α β size) : Prop :=
  ∀ n', Step book addr n n' → ∃ a, (n'.sender a).calls ≠ (n.sender a).calls

/-- In a ring without anything to fetch only a call of `Add` can begin. -/
theorem producer_ne_idle {n n' : RingNet Unit} (h : n.Step n') (hp : n.producer () = .idle)
    (hc : n.consumer = .idle) (hfull : n.ring.fullSem = 0) : n'.producer () ≠ .idle := by
  cases h with
  | waitEmpty message hp hr => simp
  | claimProduce hp' hr | store hp' hr | postFull hp' =>
    rw [hp] at hp'
    cases hp'
  | waitFull hc' hr =>
    have hpos := (FifoRing.waitFull_eq_some hr).1
    omega
  | claimConsume hc' hr | take hc' hr | fail hc' hr | postEmpty hc' =>
    rw [hc] at hc'
    cases hc'

theorem Quiet.stopped (h : n.Quiet addr) : Stopped book addr n := by
  intro n' hs
  cases hs with
  | @send a dstId message m mix r hsend hidle hr hbegins =>
    exact ⟨a, by simp⟩
  | @sending a r hr hadd hfetch =>
    obtain ⟨hp, hc, hfull, -⟩ := h.sender a
    exact absurd (hadd hp) (producer_ne_idle hr hp hc hfull)
  | @pass a s out hpass =>
    obtain ⟨-, -, -, hconsumed⟩ := h.sender a
    rw [SenderProcess.pass, List.getElem?_eq_none hconsumed.ge] at hpass
    cases hpass
  | @arrive a b m rest s hm hphase hidle hs =>
    rw [h.wire a b] at hm
    cases hm
  | @add b m r hphase hm hr hidle hbegins =>
    rw [(h.receiver b).1] at hphase
    cases hphase
  | @receiving b r hr hadd =>
    obtain ⟨-, hp, hc, hfull⟩ := h.receiver b
    exact absurd (hadd hp) (producer_ne_idle hr hp hc hfull)

theorem Stopped.calls_eq (h : Stopped book addr n) (hs : Step book addr n n')
    (hcalls : ∀ a, (n'.sender a).calls = (n.sender a).calls) : False := by
  obtain ⟨a, hne⟩ := h n' hs
  exact hne (hcalls a)

/-- A step of the ring of a sender that begins no call of `Send` is excluded. -/
theorem Stopped.sending (h : Stopped book addr n) {a : α} {r : RingNet Unit}
    (hr : (n.sender a).ring.Step r)
    (hadd : (n.sender a).ring.producer () = .idle → r.producer () = .idle)
    (hfetch : (n.sender a).ring.consumer = .idle → r.consumer ≠ .idle →
      (n.sender a).consumed = (n.sender a).ring.fetched.length) : False := by
  refine h.calls_eq (.sending hr hadd hfetch) fun a' ↦ ?_
  by_cases ha : a' = a
  · subst ha
    simp
  · simp [Function.update_of_ne ha]

/-- The thread of `Consume` has dealt with all the calls. -/
theorem Stopped.consumed_eq (h : Stopped book addr n) (hN : 0 < N) (hinv : Inv N book addr n)
    (hfits : ∀ a, ∀ m ∈ (n.sender a).calls, Fits size m) (a : α) :
    (n.sender a).consumed = (n.sender a).calls.length := by
  have hsender := hinv.sender a
  have hproducer : (n.sender a).ring.producer () = .idle := by
    by_contra hp
    obtain ⟨r, hr, hc⟩ := hsender.ring.add_enabled hN hp
    exact h.sending hr (fun hidle ↦ absurd hidle hp) fun hidle hne ↦ absurd (hc.trans hidle) hne
  have hconsumer : (n.sender a).ring.consumer = .idle := by
    by_contra hc
    obtain ⟨r, hr, hp⟩ := hsender.ring.fetch_enabled hN hc
    exact h.sending hr (fun hidle ↦ (congrFun hp ()).trans hidle) fun hidle _ ↦ absurd hidle hc
  have hpassed : (n.sender a).consumed = (n.sender a).ring.fetched.length := by
    refine le_antisymm hsender.consumed_le (not_lt.1 fun hlt ↦ ?_)
    obtain ⟨m, statics, -, -, hpass⟩ := hsender.pass_eq (hfits a) (book a) hlt
    refine h.calls_eq (.pass hpass) fun a' ↦ ?_
    by_cases ha : a' = a
    · subst ha
      simp
    · simp [Function.update_of_ne ha]
  rcases hsender.ring.begin_enabled hN hproducer hconsumer with ⟨r, hr, hp⟩ | ⟨hall, -⟩
  · exact (h.sending hr (fun hidle ↦ (congrFun hp ()).trans hidle) fun _ _ ↦ hpassed).elim
  · rw [hpassed, hall, hsender.frames.length_eq, hproducer, AddPhase.begins, List.append_nil]

/-- A step of the ring of a receiver is excluded. -/
theorem Stopped.receiving (h : Stopped book addr n) {b : β} {r : RingNet Unit}
    (hr : (n.receiver b).ring.Step r)
    (hadd : (n.receiver b).ring.producer () = .idle → r.producer () = .idle) : False :=
  h.calls_eq (.receiving hr hadd) fun _ ↦ rfl

/-- Everything that has arrived has been fetched, and `Produce` waits for more. -/
theorem Stopped.fetched_eq (h : Stopped book addr n) (hN : 0 < N) (hinv : Inv N book addr n)
    (b : β) : (n.receiver b).phase = .receiving ∧ (n.receiver b).ring.producer () = .idle ∧
      (n.receiver b).ring.fetched.length = (n.arrived b).length := by
  have hreceiver := hinv.receiver b
  have hproducer : (n.receiver b).ring.producer () = .idle := by
    by_contra hp
    obtain ⟨r, hr, -⟩ := hreceiver.ring.add_enabled hN hp
    exact h.receiving hr fun hidle ↦ absurd hidle hp
  have hconsumer : (n.receiver b).ring.consumer = .idle := by
    by_contra hc
    obtain ⟨r, hr, hp⟩ := hreceiver.ring.fetch_enabled hN hc
    exact h.receiving hr fun hidle ↦ (congrFun hp ()).trans hidle
  rcases hreceiver.ring.begin_enabled hN hproducer hconsumer with ⟨r, hr, hp⟩ | ⟨hall, hadd⟩
  · exact (h.receiving hr fun hidle ↦ (congrFun hp ()).trans hidle).elim
  · cases hphase : (n.receiver b).phase with
    | receiving =>
      have harrived := congrArg List.length (hreceiver.receiving hphase)
      rw [hproducer, AddPhase.begins, List.append_nil, List.length_map] at harrived
      exact ⟨rfl, hproducer, hall.trans harrived⟩
    | adding =>
      obtain ⟨-, m, hm, -⟩ := hreceiver.adding hphase
      obtain ⟨r, hr, hbegins⟩ := hadd m
      exact (h.calls_eq (.add hphase hm hr hproducer hbegins) fun _ ↦ rfl).elim

/-- **The transport delivers.**  When nothing more can happen, short of another call of `Send`,
every message that has been sent to a process has been received there, in the order in which it
was sent, and `Receive` has returned all of them. -/
theorem transport_delivers (hsize : 2 ≤ ringSize) (hsenders : ∀ a, (senders a).1.Fresh ringSize)
    (hended : ∀ a, (senders a).2.Ended) (hreceivers : ∀ b, (receivers b).1.Fresh ringSize)
    (haddr : Function.Injective addr)
    (hn : Relation.ReflTransGen (Step book addr) (start senders receivers) n)
    (hfits : ∀ a, ∀ m ∈ (n.sender a).calls, Fits size m)
    (hroom : ∀ a, ∀ m ∈ (n.sender a).calls, ∀ b, (book a).idToAddr m.1 = some (addr b) →
      m.2.length < (receivers b).2.message.length)
    (hstopped : Stopped book addr n) (b : β) :
    (n.receiver b).ring.fetched = (n.arrived b).map (fun e ↦ some ((e.2.length : Int), e.2)) ∧
      ∀ a, cameFrom a (n.arrived b) = sentTo (book a) (addr b) (n.sender a).calls := by
  obtain ⟨N, rfl⟩ : ∃ N : ℕ, ringSize = N := ⟨ringSize.toNat, by omega⟩
  have hN : 0 < N := by omega
  have h : Inv N book addr n := .reachable hN hsenders hended hreceivers haddr hn hfits
  obtain ⟨hphase, hidle, hall⟩ := hstopped.fetched_eq hN h b
  refine ⟨?_, fun a ↦ ?_⟩
  · have hfetched := (h.receiver b).fetched_eq
    rwa [hall, ← List.length_map Prod.snd, List.take_length, List.map_map] at hfetched
  · have hlink := h.link a b
    rw [hstopped.consumed_eq hN h hfits a, List.take_length] at hlink
    cases hwire : n.wire a (addr b) with
    | nil => rwa [hwire, List.append_nil] at hlink
    | cons m rest =>
      have hmem : m ∈ sentTo (book a) (addr b) (n.sender a).calls := by
        rw [← hlink, hwire]
        simp
      obtain ⟨call, hcall, hto⟩ := List.mem_filterMap.1 hmem
      split at hto
      · rename_i hdst
        obtain rfl := Option.some.inj hto
        have hlt := hroom a call hcall b hdst
        rw [← length_message hn b] at hlt
        exact (hstopped.calls_eq (.arrive hwire hphase hidle (if_pos hlt)) fun _ ↦ rfl).elim
      · cases hto

/-- After the two bytes have been received nothing happens any more. -/
theorem transport_delivers_small : ∃ n : TransportNet Unit Unit 8,
    Relation.ReflTransGen (Step (fun _ ↦ smallBook) fun _ ↦ "b") smallStart n ∧
      (n.sender ()).calls = [(5, [44, 0])] ∧ Stopped (fun _ ↦ smallBook) (fun _ ↦ "b") n ∧
      (n.receiver ()).ring.fetched
        = (n.arrived ()).map (fun e ↦ some ((e.2.length : Int), e.2)) ∧
      cameFrom () (n.arrived ()) = sentTo smallBook "b" (n.sender ()).calls := by
  obtain ⟨n, hn, hcalls, -, -, hquiet⟩ := smallStart_reaches
  have hfits : ∀ a, ∀ m ∈ (n.sender a).calls, Fits 8 m := by
    intro a m hm
    rw [show a = () from rfl, hcalls, List.mem_singleton] at hm
    exact hm ▸ fits_small
  have hroom : ∀ a, ∀ m ∈ (n.sender a).calls, ∀ _ : Unit, smallBook.idToAddr m.1 = some "b" →
      m.2.length < (List.replicate 8 (1 : UInt8)).length := by
    intro a m hm _ _
    rw [show a = () from rfl, hcalls, List.mem_singleton] at hm
    subst hm
    decide
  obtain ⟨hall, hfrom⟩ := transport_delivers (le_refl 2) (fun _ ↦ smallRing_fresh _)
    (fun _ ↦ smallBuffer_ended) (fun _ ↦ smallRing_fresh _) (fun _ _ _ ↦ rfl) hn hfits hroom
    hquiet.stopped ()
  exact ⟨n, hn, hcalls, hquiet.stopped, hall, hfrom ()⟩

end TransportNet

end Rpscc
