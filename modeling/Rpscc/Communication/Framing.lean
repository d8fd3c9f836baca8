import Rpscc.Communication.Communicator
import Rpscc.Communication.FifoRing
import Rpscc.Lib.Decimal

/-!
# How a sender frames its messages

The thread that sends has to know where to, so `Send` puts the id of the destination, in decimal
and with a comma, in front of a message before it adds it to the ring, and `Consume` takes it off
again: it scans the id from the buffer it fetches into, looks for a comma in the first twelve bytes
of that buffer, and takes what is behind it.  The buffer of `Send` is new and that of `Consume` is
used again and again, and neither is cleared, so both begin with any bytes here.

The message may contain anything, commas and zeros too, because its length is known
(`send_consume`).  But `sscanf` reads a string, so a zero has to follow in the buffer, and nobody
writes one: it must have been there before, or in the message.  And `snprintf` keeps the last byte
of the buffer for its own zero: if the id and its comma fill the buffer, the comma is lost, and what
`Consume` makes of the rest is never right (`not_roundTrips`).  If the buffer ends with a zero and
no frame is as long as it, the zero stays there, and all messages come through (`deliver_eq`).
-/

set_option autoImplicit false

namespace Rpscc

/-! ## Buffers -/

/-- An array of `n` bytes. -/
structure Buffer (n : ℕ) where
  bytes : Bytes
  length_bytes : bytes.length = n
deriving DecidableEq, Repr

namespace Buffer

variable {n : ℕ}

/-- The first `len` bytes of what a pointer points to, which has to be so long. -/
def first (src : Bytes) (len : Int) : Except Fault Bytes :=
  if 0 ≤ len ∧ len ≤ src.length then .ok (src.take len.toNat) else .error .outOfRange

/-- `memcpy(dst + offset, src, len)`. -/
def memcpy (dst : Buffer n) (offset : ℕ) (src : Bytes) (len : Int) : Except Fault (Buffer n) := do
  let bytes ← first src len
  if h : offset + bytes.length ≤ n then
    .ok ⟨Checked.write dst.bytes offset bytes,
      by rw [Checked.length_write (by rw [dst.length_bytes]; exact h), dst.length_bytes]⟩
  else
    .error .outOfRange

/-- `snprintf`, for the text that its format and arguments are.  What does not fit is cut off, and
there is always a zero behind it. -/
def snprintf (buffer : Buffer n) (text : Bytes) : Buffer n :=
  if h : 0 < n then
    ⟨Checked.write buffer.bytes 0 (text.take (n - 1) ++ [0]), by
      rw [Checked.length_write, buffer.length_bytes]
      rw [buffer.length_bytes, List.length_append, List.length_take, List.length_singleton]
      omega⟩
  else
    buffer

/-- `strlen`. -/
def strlen (buffer : Buffer n) : Except Fault ℕ :=
  if 0 ∈ buffer.bytes then .ok (buffer.bytes.idxOf 0) else .error .outOfRange

@[simp] theorem first_append (src rest : Bytes) : first (src ++ rest) src.length = .ok src := by
  have hle : (src.length : Int) ≤ (src ++ rest).length := by
    rw [List.length_append]
    omega
  rw [first, if_pos ⟨Int.natCast_nonneg _, hle⟩, Int.toNat_natCast, List.take_left]

/-- The bytes of `src`, and nothing behind the end. -/
theorem memcpy_append (dst : Buffer n) {offset : ℕ} {src : Bytes} (rest : Bytes)
    (h : offset + src.length ≤ n) :
    ∃ b : Buffer n, dst.memcpy offset (src ++ rest) src.length = .ok b ∧
      b.bytes = Checked.write dst.bytes offset src := by
  rw [memcpy, first_append, Checked.ok_bind, dif_pos h]
  exact ⟨_, rfl, rfl⟩

theorem memcpy_eq (dst : Buffer n) {offset : ℕ} {src : Bytes} (h : offset + src.length ≤ n) :
    ∃ b : Buffer n, dst.memcpy offset src src.length = .ok b ∧
      b.bytes = Checked.write dst.bytes offset src := by
  have hcopy := memcpy_append dst [] h
  rwa [List.append_nil] at hcopy

/-- Nothing is written behind the end. -/
theorem memcpy_le {dst b : Buffer n} {offset : ℕ} {src : Bytes}
    (h : dst.memcpy offset src src.length = .ok b) : offset + src.length ≤ n := by
  have hfirst := first_append src []
  rw [List.append_nil] at hfirst
  rw [memcpy, hfirst, Checked.ok_bind] at h
  split at h
  · assumption
  · cases h

/-- A length that is negative is no length. -/
theorem memcpy_len_nonneg {dst b : Buffer n} {offset : ℕ} {src : Bytes} {len : Int}
    (h : dst.memcpy offset src len = .ok b) : 0 ≤ len := by
  rw [memcpy, Checked.bind_eq_ok] at h
  obtain ⟨bytes, hfirst, -⟩ := h
  rw [first] at hfirst
  split at hfirst
  · rename_i hlen
    exact hlen.1
  · cases hfirst

/-- After printing, the string is what was printed. -/
theorem strlen_snprintf (buffer : Buffer n) {text : Bytes} (hn : 0 < n) (hzero : 0 ∉ text) :
    ∃ rest, (buffer.snprintf text).bytes = text.take (n - 1) ++ 0 :: rest ∧
      (buffer.snprintf text).strlen = .ok (text.take (n - 1)).length := by
  have hbytes : (buffer.snprintf text).bytes
      = text.take (n - 1) ++ 0 :: buffer.bytes.drop (text.take (n - 1) ++ [0]).length := by
    rw [snprintf, dif_pos hn]
    dsimp only
    rw [Checked.write, List.take_zero, List.nil_append, Nat.zero_add, List.append_assoc,
      List.singleton_append]
  refine ⟨_, hbytes, ?_⟩
  have hzero' : 0 ∉ text.take (n - 1) := fun h ↦ hzero (List.mem_of_mem_take h)
  rw [strlen, hbytes, if_pos (List.mem_append_right _ (List.mem_cons_self ..)),
    List.idxOf_append_of_notMem hzero', List.idxOf_cons_self, Nat.add_zero]

end Buffer

/-! ## Sending -/

/-- What `"%d,"` prints. -/
def header (dstId : Int) : Bytes := Decimal.print dstId ++ [44]

/-- `ZmqCommunicator::Send`, with the array `mixMessage` it gets from `new`: the bytes that are
added to the ring. -/
def send {n : ℕ} (mixMessage : Buffer n) (dstId : Int) (message : Bytes) : Except Fault Bytes := do
  let mix := mixMessage.snprintf (header dstId)
  let offset ← mix.strlen
  let mix ← mix.memcpy offset message message.length
  Buffer.first mix.bytes (message.length + offset)

/-! ## Consuming -/

/-- The `static` variables of `ZmqCommunicator::Consume`. -/
structure ConsumeStatics (n : ℕ) where
  mixMessage : Buffer n
  message : Buffer n
  len : Int
  dstId : Int
deriving DecidableEq, Repr

/-- `sscanf(mix_message, "%d,", &dst_id)`.  The buffer has to hold a string, which ends with a zero.
If there is no number `dst_id` is left alone, and one that is no `int` is undefined. -/
def sscanf (mixMessage : Bytes) (dstId : Int) : Except Fault Int :=
  if 0 ∈ mixMessage then do
    let scanned ← Decimal.scan mixMessage
    match scanned with
    | none => .ok dstId
    | some id => if -2147483648 ≤ id ∧ id < 2147483648 then .ok id else .error .outOfRange
  else
    .error .outOfRange

namespace ConsumeStatics

variable {n : ℕ}

/-- The loop that looks for the comma, over the indices that are left of it. -/
def cut (s : ConsumeStatics n) : List ℕ → Except Fault (ConsumeStatics n)
  | [] => .ok s
  | i :: is => do
    let c ← Checked.get s.mixMessage.bytes i
    if c = 44 then do
      let message ← s.message.memcpy 0 (s.mixMessage.bytes.drop (i + 1)) (s.len - i - 1)
      .ok { s with message := message, len := s.len - i - 1 }
    else
      s.cut is

/-- A pass of `ZmqCommunicator::Consume` as far as the address is looked up, when `Fetch` copies the
bytes `fetched`. -/
def consume (s : ConsumeStatics n) (fetched : Bytes) : Except Fault (ConsumeStatics n) := do
  let mix ← s.mixMessage.memcpy 0 fetched fetched.length
  let id ← sscanf mix.bytes s.dstId
  cut { s with mixMessage := mix, len := fetched.length, dstId := id } (List.range 12)

/-- The bytes that `send_recv_.Send(iter->second, message, len)` is given. -/
def handedOn (s : ConsumeStatics n) : Except Fault Bytes := Buffer.first s.message.bytes s.len

/-- The loop of `ZmqCommunicator::Consume`, over what it fetches: what is sent to which address.
Messages to ids without one are dropped. -/
def deliver (c : Communicator) :
    ConsumeStatics n → List Bytes → Except Fault (List (String × Bytes))
  | _, [] => .ok []
  | s, fetched :: rest => do
    let s ← s.consume fetched
    match c.idToAddr s.dstId with
    | none => s.deliver c rest
    | some addr => do
      let message ← s.handedOn
      let sent ← s.deliver c rest
      .ok ((addr, message) :: sent)

end ConsumeStatics

/-- `Consume` finds in what `Send` has added the same id, the same length and the same message. -/
def RoundTrips {n : ℕ} (mixMessage : Buffer n) (s : ConsumeStatics n) (dstId : Int)
    (message : Bytes) : Prop :=
  ∃ added s', send mixMessage dstId message = .ok added ∧ s.consume added = .ok s' ∧
    s'.dstId = dstId ∧ s'.len = message.length ∧ s'.handedOn = .ok message

/-! ## What is sent -/

theorem comma_notMem_print (dstId : Int) : 44 ∉ Decimal.print dstId := by
  intro h
  rcases Decimal.mem_print h with h | h
  · exact absurd h (by decide)
  · exact absurd h (by decide)

theorem zero_notMem_header (dstId : Int) : 0 ∉ header dstId := by
  intro h
  rcases List.mem_append.1 h with h | h
  · rcases Decimal.mem_print h with h | h
    · exact absurd h (by decide)
    · exact absurd h (by decide)
  · exact absurd (List.mem_singleton.1 h) (by decide)

@[simp, grind =] theorem length_header (dstId : Int) :
    (header dstId).length = (Decimal.print dstId).length + 1 := by
  rw [header, List.length_append, List.length_singleton]

variable {n : ℕ}

/-- The message follows as much of the id and its comma as `snprintf` has room for. -/
theorem send_eq (mixMessage : Buffer n) {dstId : Int} {message : Bytes} (hn : 0 < n)
    (hfits : ((header dstId).take (n - 1)).length + message.length ≤ n) :
    send mixMessage dstId message = .ok ((header dstId).take (n - 1) ++ message) := by
  obtain ⟨rest, hbytes, hstrlen⟩ :=
    Buffer.strlen_snprintf mixMessage hn (zero_notMem_header dstId)
  obtain ⟨b, hcopy, hb⟩ :=
    Buffer.memcpy_eq (mixMessage.snprintf (header dstId)) hfits
  have hle : ((header dstId).take (n - 1)).length
      ≤ (mixMessage.snprintf (header dstId)).bytes.length := by
    rw [hbytes, List.length_append]
    omega
  have htake := Checked.take_write (mixMessage.snprintf (header dstId)).bytes message hle
  have hfirst := Buffer.first_append ((header dstId).take (n - 1) ++ message) (b.bytes.drop
    (((header dstId).take (n - 1)).length + message.length))
  have hb' : (header dstId).take (n - 1) ++ message ++ b.bytes.drop
      (((header dstId).take (n - 1)).length + message.length) = b.bytes := by
    rw [← hb, hbytes, List.take_left] at htake
    rw [← htake, List.take_append_drop]
  have hlen : ((message.length : Int) + ((header dstId).take (n - 1)).length)
      = ((header dstId).take (n - 1) ++ message).length := by
    rw [List.length_append, Nat.cast_add, Int.add_comm]
  rw [hb'] at hfirst
  simp only [send, hstrlen, Checked.ok_bind, hcopy, hlen, hfirst]

/-- With room for the comma, the id and the comma are in front of the message. -/
theorem send_header {mixMessage : Buffer n} {dstId : Int} {message added : Bytes}
    (hroom : (header dstId).length < n) (hfits : (header dstId).length + message.length ≤ n)
    (h : send mixMessage dstId message = .ok added) : added = header dstId ++ message := by
  have htake : (header dstId).take (n - 1) = header dstId := List.take_of_length_le (by omega)
  rw [send_eq mixMessage (by omega) (by rwa [htake]), htake] at h
  exact (Except.ok.inj h).symm

/-- With room for the comma, `Send` succeeds exactly if the message fits behind it. -/
theorem send_ok_iff {mixMessage : Buffer n} {dstId : Int} {message : Bytes}
    (hroom : (header dstId).length < n) :
    (∃ added, send mixMessage dstId message = .ok added) ↔
      (header dstId).length + message.length ≤ n := by
  have htake : (header dstId).take (n - 1) = header dstId := List.take_of_length_le (by omega)
  obtain ⟨rest, -, hstrlen⟩ :=
    Buffer.strlen_snprintf mixMessage (by omega) (zero_notMem_header dstId)
  constructor
  · rintro ⟨added, h⟩
    rw [send, hstrlen, htake, Checked.ok_bind, Checked.bind_eq_ok] at h
    obtain ⟨mix, hcopy, -⟩ := h
    exact Buffer.memcpy_le hcopy
  · intro hfits
    exact ⟨_, send_eq mixMessage (by omega) (by rwa [htake])⟩

/-! ## What is consumed -/

namespace ConsumeStatics

/-- The loop stops at the first comma. -/
theorem cut_eq {s : ConsumeStatics n} {front back : Bytes}
    (hmix : s.mixMessage.bytes = front ++ 44 :: back) (hfront : 44 ∉ front) :
    ∀ {m i : ℕ}, i ≤ front.length → front.length < i + m →
      s.cut (List.range' i m) = (do
        let message ← s.message.memcpy 0 back (s.len - front.length - 1)
        .ok { s with message := message, len := s.len - front.length - 1 })
  | 0, i, hle, hlt => absurd hlt (by omega)
  | m + 1, i, hle, hlt => by
    rw [List.range'_succ, cut]
    rcases Nat.lt_or_eq_of_le hle with hlt' | rfl
    · have hget : s.mixMessage.bytes[i]? = some front[i] := by
        rw [hmix, List.getElem?_append_left hlt', List.getElem?_eq_getElem hlt']
      have hne : front[i] ≠ 44 := fun h ↦ hfront (h ▸ List.getElem_mem hlt')
      rw [Checked.get_natCast hget, Checked.ok_bind, if_neg hne]
      exact cut_eq hmix hfront hlt' (by omega)
    · have hget : s.mixMessage.bytes[front.length]? = some 44 := by
        rw [hmix, List.getElem?_append_right (Nat.le_refl _), Nat.sub_self]
        rfl
      have hdrop : s.mixMessage.bytes.drop (front.length + 1) = back := by
        rw [hmix, List.drop_append, List.drop_eq_nil_of_le (Nat.le_succ _), Nat.add_sub_cancel_left]
        rfl
      rw [Checked.get_natCast hget, Checked.ok_bind, if_pos rfl, hdrop]

/-- Either it has found a comma, and the length is what is behind it, or there was none. -/
theorem len_of_cut {s s' : ConsumeStatics n} : ∀ {is : List ℕ}, s.cut is = .ok s' →
    s'.len = s.len ∨ ∃ i ∈ is, s.mixMessage.bytes[i]? = some 44 ∧ s'.len = s.len - i - 1 ∧
      0 ≤ s'.len
  | [], h => by
    cases h
    exact .inl rfl
  | i :: is, h => by
    rw [cut, Checked.bind_eq_ok] at h
    obtain ⟨c, hget, h⟩ := h
    split at h
    · rename_i hc
      rw [Checked.bind_eq_ok] at h
      obtain ⟨message, hcopy, h⟩ := h
      cases h
      have hi := (Checked.get_eq_ok_iff.1 hget).2
      rw [Int.toNat_natCast, hc] at hi
      exact .inr ⟨i, List.mem_cons_self .., hi, rfl, Buffer.memcpy_len_nonneg hcopy⟩
    · rcases len_of_cut h with hlen | ⟨j, hj, hrest⟩
      · exact .inl hlen
      · exact .inr ⟨j, List.mem_cons_of_mem _ hj, hrest⟩

/-- The loop leaves the buffer that it looks at as it is. -/
theorem mixMessage_cut {s s' : ConsumeStatics n} : ∀ {is : List ℕ}, s.cut is = .ok s' →
    s'.mixMessage = s.mixMessage
  | [], h => by
    cases h
    rfl
  | i :: is, h => by
    rw [cut, Checked.bind_eq_ok] at h
    obtain ⟨c, -, h⟩ := h
    split at h
    · rw [Checked.bind_eq_ok] at h
      obtain ⟨message, -, h⟩ := h
      cases h
      rfl
    · exact mixMessage_cut h

/-- What a pass finds in the buffer is a string. -/
theorem mixMessage_consume {s s' : ConsumeStatics n} {fetched : Bytes}
    (h : s.consume fetched = .ok s') : fetched.length ≤ n ∧
      s'.mixMessage.bytes = fetched ++ s.mixMessage.bytes.drop fetched.length ∧
      0 ∈ s'.mixMessage.bytes := by
  rw [consume, Checked.bind_eq_ok] at h
  obtain ⟨mix, hmix, h⟩ := h
  rw [Checked.bind_eq_ok] at h
  obtain ⟨id, hid, h⟩ := h
  have hle : 0 + fetched.length ≤ n := Buffer.memcpy_le hmix
  obtain ⟨mix', hmix', hbytes⟩ := Buffer.memcpy_eq s.mixMessage hle
  obtain rfl : mix = mix' := Except.ok.inj (hmix.symm.trans hmix')
  rw [Checked.write, List.take_zero, List.nil_append, Nat.zero_add] at hbytes
  rw [mixMessage_cut h]
  refine ⟨by omega, hbytes, ?_⟩
  rw [sscanf] at hid
  split at hid
  · assumption
  · cases hid

/-- The buffer ends with a zero. -/
def Ended (s : ConsumeStatics n) : Prop := s.mixMessage.bytes.getLast? = some 0

theorem Ended.zero_mem {s : ConsumeStatics n} (h : s.Ended) {k : ℕ} (hk : k < n) :
    0 ∈ s.mixMessage.bytes.drop k := by
  refine List.mem_of_getLast? ?_
  rw [List.getLast?_drop, if_neg (by rw [s.mixMessage.length_bytes]; omega)]
  exact h

/-- A frame that is shorter than the buffer leaves the zero. -/
theorem Ended.consume {s s' : ConsumeStatics n} (h : s.Ended) {fetched : Bytes}
    (hlt : fetched.length < n) (hconsume : s.consume fetched = .ok s') : s'.Ended := by
  obtain ⟨-, hbytes, -⟩ := mixMessage_consume hconsume
  have hlast := List.getLast?_drop (l := s.mixMessage.bytes) (i := fetched.length)
  rw [if_neg (by rw [s.mixMessage.length_bytes]; omega)] at hlast
  rw [Ended, hbytes, List.getLast?_append, hlast, h, Option.some_or]

end ConsumeStatics

theorem sscanf_header {dstId : Int} (hlow : -2147483648 ≤ dstId) (hhigh : dstId < 2147483648)
    {back : Bytes} (hzero : 0 ∈ back) (old : Int) :
    sscanf (Decimal.print dstId ++ 44 :: back) old = .ok dstId := by
  rw [sscanf, if_pos (List.mem_append_right _ (List.mem_cons_of_mem _ hzero)),
    Decimal.scan_print dstId (by decide), Checked.ok_bind]
  exact if_pos ⟨hlow, hhigh⟩

/-- The comma is among the first twelve bytes. -/
theorem length_print_lt {dstId : Int} (hlow : -2147483648 ≤ dstId) (hhigh : dstId < 2147483648) :
    (Decimal.print dstId).length < 12 := by
  have hle := Decimal.length_print_le (n := dstId) (k := 10) (by omega) (by omega)
  omega

/-- **The message, its length and its destination come through.** -/
theorem send_consume (mixMessage : Buffer n) (s : ConsumeStatics n) {dstId : Int}
    {message : Bytes} (hlow : -2147483648 ≤ dstId) (hhigh : dstId < 2147483648)
    (hfits : (header dstId).length + message.length ≤ n) (hroom : (header dstId).length < n)
    (hzero : 0 ∈ message ++ s.mixMessage.bytes.drop ((header dstId).length + message.length)) :
    RoundTrips mixMessage s dstId message := by
  have htake : (header dstId).take (n - 1) = header dstId := List.take_of_length_le (by omega)
  have hsend := send_eq mixMessage (by omega) (htake.symm ▸ hfits)
  rw [htake] at hsend
  have hadded : 0 + (header dstId ++ message).length ≤ n := by
    rw [List.length_append]
    omega
  obtain ⟨mix, hmix, hmixbytes⟩ := Buffer.memcpy_eq s.mixMessage hadded
  have hback : mix.bytes = Decimal.print dstId ++ 44 ::
      (message ++ s.mixMessage.bytes.drop ((header dstId).length + message.length)) := by
    rw [hmixbytes, Checked.write, List.length_append, header]
    simp only [List.take_zero, List.nil_append, List.append_assoc, List.cons_append, Nat.zero_add]
  obtain ⟨b, hcopy, hb⟩ := Buffer.memcpy_append s.message
    (s.mixMessage.bytes.drop ((header dstId).length + message.length))
    (show 0 + message.length ≤ n by omega)
  have hlen : ((header dstId ++ message).length : Int) - (Decimal.print dstId).length - 1
      = message.length := by
    rw [List.length_append, length_header]
    omega
  have hlt := length_print_lt hlow hhigh
  have hcut := ConsumeStatics.cut_eq
    (s := { s with mixMessage := mix, len := (header dstId ++ message).length, dstId := dstId })
    hback (comma_notMem_print dstId) (m := 12) (Nat.zero_le _) (by omega)
  dsimp only at hcut
  rw [hlen, hcopy, Checked.ok_bind] at hcut
  refine ⟨_, ⟨mix, b, message.length, dstId⟩, hsend, ?_, rfl, rfl, ?_⟩
  · rw [ConsumeStatics.consume, hmix, Checked.ok_bind, hback,
      sscanf_header hlow hhigh hzero, Checked.ok_bind, List.range_eq_range']
    exact hcut
  · rw [ConsumeStatics.handedOn]
    dsimp only
    rw [hb, Checked.write, List.take_zero, List.nil_append]
    exact Buffer.first_append _ _

/-- **The loop sends every message to its address**, one after the other, through buffers that hold
whatever the messages before have left in them, but for the zero at the end. -/
theorem deliver_eq (c : Communicator) {sent : List (Int × Bytes)} {added : List Bytes}
    (hadded : List.Forall₂ (fun m bytes ↦ ∃ mix : Buffer n, send mix m.1 m.2 = .ok bytes) sent
      added)
    (hrange : ∀ m ∈ sent, -2147483648 ≤ m.1 ∧ m.1 < 2147483648)
    (hfits : ∀ m ∈ sent, (header m.1).length + m.2.length < n) :
    ∀ s : ConsumeStatics n, s.Ended → s.deliver c added
      = .ok (sent.filterMap fun m ↦ (c.idToAddr m.1).map fun addr ↦ (addr, m.2)) := by
  induction hadded with
  | nil => exact fun s _ ↦ rfl
  | @cons m bytes sent added hsend _ ih =>
    intro s hended
    obtain ⟨mix, hsend⟩ := hsend
    obtain ⟨hlow, hhigh⟩ := hrange m (List.mem_cons_self ..)
    have hfit := hfits m (List.mem_cons_self ..)
    obtain ⟨bytes', s', hsend', hconsume, hid, -, hmessage⟩ :=
      send_consume mix s hlow hhigh hfit.le (by omega)
        (List.mem_append_right _ (hended.zero_mem hfit))
    rw [hsend] at hsend'
    cases hsend'
    have hlen := congrArg List.length (send_header (by omega) hfit.le hsend)
    rw [List.length_append] at hlen
    have hrest := ih (fun m hm ↦ hrange m (List.mem_cons_of_mem _ hm))
      (fun m hm ↦ hfits m (List.mem_cons_of_mem _ hm)) s'
      (hended.consume (by omega) hconsume)
    rw [ConsumeStatics.deliver, hconsume, Checked.ok_bind, hid]
    cases haddr : c.idToAddr m.1 with
    | none =>
      rw [List.filterMap_cons_none (by rw [haddr]; rfl)]
      exact hrest
    | some addr =>
      rw [List.filterMap_cons_some (by rw [haddr]; rfl)]
      dsimp only
      rw [hmessage, Checked.ok_bind, hrest, Checked.ok_bind]

/-- Without room for the comma, the length is never right. -/
theorem not_roundTrips {mixMessage : Buffer n} {s : ConsumeStatics n} {dstId : Int}
    (hfull : (header dstId).length = n) : ¬ RoundTrips mixMessage s dstId [] := by
  rintro ⟨added, s', hsend, hconsume, -, hlen, -⟩
  have htake : (header dstId).take (n - 1) = Decimal.print dstId := by
    rw [← hfull, length_header, header, Nat.add_sub_cancel, List.take_left]
  have hprint := length_header dstId
  have hpos : 0 < (Decimal.print dstId).length :=
    List.length_pos_of_ne_nil (Decimal.print_ne_nil dstId)
  rw [send_eq mixMessage (by omega) (by rw [htake, List.length_nil]; omega), htake,
    List.append_nil] at hsend
  cases hsend
  rw [ConsumeStatics.consume, Checked.bind_eq_ok] at hconsume
  obtain ⟨mix, hmix, hconsume⟩ := hconsume
  rw [Checked.bind_eq_ok] at hconsume
  obtain ⟨id, -, hcut⟩ := hconsume
  obtain ⟨mix', hmix', hbytes⟩ := Buffer.memcpy_eq s.mixMessage
    (show 0 + (Decimal.print dstId).length ≤ n by omega)
  rw [hmix'] at hmix
  cases hmix
  rcases ConsumeStatics.len_of_cut hcut with hsame | ⟨i, -, hi, hless, hnonneg⟩
  · dsimp only at hsame
    rw [hlen, List.length_nil] at hsame
    omega
  · dsimp only at hi hless
    have hle : (Decimal.print dstId).length ≤ i := by
      by_contra hlt
      rw [hbytes, Checked.write, List.take_zero, List.nil_append,
        List.getElem?_append_left (by omega)] at hi
      exact comma_notMem_print dstId (List.mem_of_getElem? hi)
    omega

/-- **Framing round-trips exactly when the buffer has a byte left behind the comma, and a zero.**
For every id, every message that fits into the buffer behind the id and its comma, and whatever is
left in the buffers: `Consume` finds what was sent if and only if the id and its comma alone do not
fill the buffer, and there is a zero in the message, or among the bytes that were left behind it. -/
theorem roundTrips_iff {dstId : Int} (hlow : -2147483648 ≤ dstId) (hhigh : dstId < 2147483648)
    {message : Bytes} (hfits : (header dstId).length + message.length ≤ n) (mixMessage : Buffer n)
    (s : ConsumeStatics n) :
    RoundTrips mixMessage s dstId message ↔ (header dstId).length < n ∧
      0 ∈ message ++ s.mixMessage.bytes.drop ((header dstId).length + message.length) := by
  constructor
  · intro h
    have hroom : (header dstId).length < n := by
      by_contra hfull
      obtain rfl : message = [] := List.eq_nil_of_length_eq_zero (by omega)
      exact not_roundTrips (by omega) h
    obtain ⟨added, s', hsend, hconsume, -⟩ := h
    obtain rfl := send_header hroom hfits hsend
    obtain ⟨-, hbytes, hzero⟩ := ConsumeStatics.mixMessage_consume hconsume
    rw [hbytes, List.append_assoc, List.length_append] at hzero
    exact ⟨hroom, (List.mem_append.1 hzero).resolve_left (zero_notMem_header dstId)⟩
  · rintro ⟨hroom, hzero⟩
    exact send_consume mixMessage s hlow hhigh hfits hroom hzero

/-- Buffers of sixteen bytes, all sevens but for the last. -/
def sevens : ConsumeStatics 16 where
  mixMessage := ⟨List.replicate 15 55 ++ [0], rfl⟩
  message := ⟨List.replicate 16 55, rfl⟩
  len := -1
  dstId := 3

/-- A message that looks like a header, to the lowest id there is. -/
theorem roundTrips_iff_lowest :
    RoundTrips ⟨List.replicate 16 44, rfl⟩ sevens (-2147483648) [50, 44] :=
  (roundTrips_iff (by decide) (by decide) (by decide) _ _).2 ⟨by decide, by decide⟩

/-- An empty message to the node `5`, through buffers of two bytes: only the `5` is sent, and
`Consume` reads on behind its buffer.  It does so, too, with a message of one byte and buffers of
four that hold no zero. -/
theorem comma_lost_or_no_zero : ((header 5).length + ([] : Bytes).length ≤ 2 ∧
    send ⟨[7, 7], rfl⟩ 5 [] = .ok [53] ∧
    (⟨⟨[0, 0], rfl⟩, ⟨[0, 0], rfl⟩, 0, 0⟩ : ConsumeStatics 2).consume [53] = .error .outOfRange ∧
    ¬ RoundTrips ⟨[7, 7], rfl⟩ ⟨⟨[0, 0], rfl⟩, ⟨[0, 0], rfl⟩, 0, 0⟩ 5 []) ∧
    send ⟨[7, 7, 7, 7], rfl⟩ 5 [1] = .ok [53, 44, 1] ∧
    (⟨⟨[7, 7, 7, 7], rfl⟩, ⟨[0, 0, 0, 0], rfl⟩, 0, 0⟩ : ConsumeStatics 4).consume [53, 44, 1]
      = .error .outOfRange ∧
    ¬ RoundTrips ⟨[7, 7, 7, 7], rfl⟩ ⟨⟨[7, 7, 7, 7], rfl⟩, ⟨[0, 0, 0, 0], rfl⟩, 0, 0⟩ 5 [1] := by
  refine ⟨⟨by decide, by decide, by decide, not_roundTrips (by decide)⟩, by decide, by decide, ?_⟩
  rintro ⟨added, s', hsend, hconsume, -⟩
  obtain rfl : added = [53, 44, 1] := Except.ok.inj (hsend.symm.trans (by decide))
  exact absurd (ConsumeStatics.mixMessage_consume hconsume).2.2 (by
    rw [(ConsumeStatics.mixMessage_consume hconsume).2.1]
    decide)

end Rpscc
