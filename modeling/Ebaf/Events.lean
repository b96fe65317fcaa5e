import Ebaf.Kernel
import Ebaf.Headers

/-! # Events

A transformed packet is reported through the ring buffer with a sample of its
body as it stands after the cipher call.  The framed programs copy the sample
through a packet pointer and `tc_transparent` through `bpf_skb_load_bytes`; the
record is the same.
-/
namespace Ebaf
open ByteWindow EarlyExit

variable {Ctx : Type}

/-- The copy loop of an event's sample: it stops at the first byte that is not
there. -/
def copySample (byte : Nat → Option UInt8) : Nat → Nat → List UInt8
  | _, 0 => []
  | i, n + 1 =>
    match byte i with
    | none => []
    | some b => b :: copySample byte (i + 1) n

theorem length_copySample (byte : Nat → Option UInt8) :
    ∀ i n, (copySample byte i n).length ≤ n
  | _, 0 => Nat.le_refl 0
  | i, n + 1 => by
    unfold copySample
    cases byte i with
    | none => exact Nat.zero_le _
    | some b => exact Nat.succ_le_succ (length_copySample byte (i + 1) n)

/-- The loop copies the body up to its end, and neither stops early nor runs past
it: `bs` are the bytes that are there. -/
theorem copySample_eq (byte : Nat → Option UInt8) (bs : List UInt8)
    (hbyte : ∀ i, byte i = if bs.length ≤ i then none else some (byteAt bs i)) :
    ∀ n i, copySample byte i n = (bs.drop i).take n
  | 0, i => by rw [copySample, List.take_zero]
  | n + 1, i => by
    rw [copySample, hbyte i]
    by_cases hi : bs.length ≤ i
    · rw [if_pos hi, List.drop_eq_nil_of_le hi]
      rfl
    · have hlt : i < bs.length := Nat.not_le.mp hi
      rw [if_neg hi, List.drop_eq_getElem_cons hlt, List.take_succ_cons, byteAt_of_lt hlt]
      exact congrArg (bs[i] :: ·) (copySample_eq byte bs hbyte n (i + 1))

/-- Wherever the loop stops, it has copied the start of the body. -/
theorem copySample_start (byte : Nat → Option UInt8) (bs : List UInt8)
    (hbyte : ∀ i b, byte i = some b → bs[i]? = some b) :
    ∀ n i, copySample byte i n <+: bs.drop i
  | 0, i => List.nil_prefix
  | n + 1, i => by
    rw [copySample]
    cases hread : byte i with
    | none => exact List.nil_prefix
    | some b =>
      obtain ⟨hlt, hb⟩ := List.getElem?_eq_some_iff.mp (hbyte i b hread)
      rw [List.drop_eq_getElem_cons hlt, hb]
      exact (List.prefix_cons_inj b).mpr (copySample_start byte bs hbyte n (i + 1))

/-- The array of a reserved event after the copy loop. -/
def fillSample (reserved : Sample) (copied : List UInt8) : Sample :=
  ⟨store reserved.1 0 copied, length_store.trans reserved.2⟩

/-- The array starts with what was copied. -/
theorem take_fillSample (reserved : Sample) {copied : List UInt8}
    (h : copied.length ≤ ebafEventSampleBytes) :
    (fillSample reserved copied).1.take copied.length = copied := by
  have hroom : 0 + copied.length ≤ reserved.1.length := by rw [reserved.2]; omega
  rw [← load_zero (by rw [(fillSample reserved copied).2]; exact h)]
  exact load_store_self hroom

/-- The event a program submits: `f` is the frame it is read from, `udp` the
offset of the UDP header, and `byte` what the copy loop reads. -/
def cryptoEvent (e : Env Ctx) (config : EbafCryptoConfig) (f : Frame) (udp payloadLen dataLen : Nat)
    (byte : Nat → Option UInt8) : EbafCryptoEvent :=
  let copied := copySample byte 0 ebafEventSampleBytes
  { timestampNs := e.eventClock
    srcIp := UInt32.ofNat (ipSaddr f)
    dstIp := UInt32.ofNat (ipDaddr f)
    srcPort := UInt16.ofNat (be16 f udp)
    dstPort := UInt16.ofNat (be16 f (udp + 2))
    payloadLen := UInt16.ofNat payloadLen
    dataLen := UInt16.ofNat dataLen
    action := UInt8.ofNat config.action.toNat
    algo := UInt8.ofNat config.algo.toNat
    result := 0
    sampleLen := UInt8.ofNat copied.length
    sample := fillSample e.reserved copied }

/-- `bpf_ringbuf_reserve` … `bpf_ringbuf_submit`: nothing is submitted when no
record can be reserved. -/
def submitEvent (e : Env Ctx) (ev : EbafCryptoEvent) : PacketProg Ctx Unit :=
  if e.fails .ringbufReserve then pure ()
  else Prog.modify fun s => { s with events := s.events ++ [ev] }

/-- What `submitEvent` adds to the ring buffer. -/
def submitted (e : Env Ctx) (ev : EbafCryptoEvent) : List EbafCryptoEvent :=
  if e.fails .ringbufReserve then [] else [ev]

theorem ensures_submitEvent {e : Env Ctx} {ev : EbafCryptoEvent} {s : PacketState Ctx}
    {Q : Unit → PacketState Ctx → Prop} {E : PacketState Ctx → Prop} :
    (submitEvent e ev).Ensures s Q E ↔ Q () { s with events := s.events ++ submitted e ev } := by
  unfold submitEvent submitted
  split
  · rw [List.append_nil]
    exact Iff.rfl
  · exact Iff.rfl

end Ebaf
