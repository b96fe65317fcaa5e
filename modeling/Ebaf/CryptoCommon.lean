import Ebaf.ByteWindow

/-! # The definitions all programs share

The constants and records of `crypto_common.h`: the 24-byte EBAF header that
carries the IV, the configuration the packet programs read from their map, the
statistics counters and the event a program submits for a transformed packet.

Multi-byte header fields are read and written as the numbers they denote in
network order, so a comparison with `bpf_htonl(EBAF_CRYPTO_MAGIC)` is a
comparison with the magic number.
-/
namespace Ebaf
open ByteWindow

def ebafAes128KeyBytes : Nat := 16
def ebafChacha20KeyBytes : Nat := 32
def ebafCryptoMaxKeyBytes : Nat := ebafChacha20KeyBytes
def ebafCryptoIvBytes : Nat := 16
def ebafCryptoBlockBytes : Nat := 16
def ebafCryptoIvOffset : Nat := 8
def ebafCryptoMagic : Nat := 0x45424146
def ebafCryptoVersion : UInt8 := 1
def ebafDefaultUdpPort : Nat := 7777
def ebafActionEncrypt : UInt32 := 1
def ebafActionDecrypt : UInt32 := 2
def ebafAlgoCbcAes : UInt32 := 1
def ebafAlgoChacha20 : UInt32 := 2
def ebafEventSampleBytes : Nat := 32
def ebafCryptoFTransparent : UInt32 := 1
def ebafMaxTransparentPayload : Nat := 1408

/-- `n & (EBAF_CRYPTO_BLOCK_BYTES - 1)` is the remainder by the block size. -/
@[simp] theorem and_blockMask (n : Nat) : n &&& (ebafCryptoBlockBytes - 1) = n % 16 :=
  Nat.and_two_pow_sub_one_eq_mod n 4

/-! ## The EBAF header -/

/-- `struct ebaf_crypto_header`: in front of the body in framed mode, behind it
in transparent mode. -/
structure EbafCryptoHeader where
  magic : Nat
  version : UInt8
  action : UInt8
  payloadLen : Nat
  iv : List UInt8
  deriving DecidableEq

namespace EbafCryptoHeader

/-- `sizeof(struct ebaf_crypto_header)` -/
def size : Nat := 24

/-- The header as the bytes at an offset denote it. -/
def read (f : List UInt8) (off : Nat) : EbafCryptoHeader where
  magic := be32 f off
  version := byteAt f (off + 4)
  action := byteAt f (off + 5)
  payloadLen := be16 f (off + 6)
  iv := load f (off + ebafCryptoIvOffset) ebafCryptoIvBytes

/-- The bytes of a header. -/
def bytes (h : EbafCryptoHeader) : List UInt8 :=
  be16Bytes (h.magic / 65536) ++ be16Bytes (h.magic % 65536) ++
    [h.version, h.action] ++ be16Bytes h.payloadLen ++ load h.iv 0 ebafCryptoIvBytes

@[simp] theorem length_bytes (h : EbafCryptoHeader) : h.bytes.length = size := by
  simp [bytes, size, ebafCryptoIvBytes]

/-- A header whose fields fit their widths reads back from its bytes. -/
theorem read_bytes (h : EbafCryptoHeader) (hmagic : h.magic < 4294967296)
    (hlen : h.payloadLen < 65536) (hiv : h.iv.length = ebafCryptoIvBytes) :
    read h.bytes 0 = h := by
  have hm : be32 h.bytes 0 = h.magic := by
    have h0 : be16 h.bytes 0 = be16 (be16Bytes (h.magic / 65536)) 0 := rfl
    have h1 : be16 h.bytes 2 = be16 (be16Bytes (h.magic % 65536)) 0 := rfl
    rw [be32, Nat.zero_add, h0, h1, be16_be16Bytes (by omega), be16_be16Bytes (by omega)]
    omega
  have hl : be16 h.bytes 6 = h.payloadLen :=
    (show be16 h.bytes 6 = be16 (be16Bytes h.payloadLen) 0 from rfl).trans (be16_be16Bytes hlen)
  have hi : load h.bytes 8 16 = h.iv := by
    rw [← load_full (f := h.iv), hiv]
    rfl
  obtain ⟨magic, version, action, payloadLen, iv⟩ := h
  simp only [read, ebafCryptoIvOffset, ebafCryptoIvBytes, EbafCryptoHeader.mk.injEq, Nat.zero_add]
  exact ⟨hm, rfl, rfl, hl, hi⟩

/-- The header at an offset depends on its 24 bytes only. -/
theorem read_congr {f g : List UInt8} {off m : Nat}
    (h : ∀ i, i < size → byteAt f (off + i) = byteAt g (m + i)) : read f off = read g m := by
  simp only [read, EbafCryptoHeader.mk.injEq]
  refine ⟨be32_congr fun i hi => h i (by unfold size; omega), h 4 (by decide), h 5 (by decide),
    be16_congr (h 6 (by decide)) (h 7 (by decide)), load_congr fun i hi => ?_⟩
  have := h (ebafCryptoIvOffset + i) (by unfold size ebafCryptoIvOffset ebafCryptoIvBytes at *; omega)
  rwa [← Nat.add_assoc, ← Nat.add_assoc] at this

/-- Reading back a header just stored. -/
theorem read_store {f : List UInt8} {off : Nat} (h : EbafCryptoHeader)
    (hin : off + size ≤ f.length) : read (store f off h.bytes) off = read h.bytes 0 := by
  refine read_congr fun i hi => ?_
  rw [byteAt_store_in (by omega) (by simp [hi]) (by omega), Nat.zero_add]
  congr 1
  omega

end EbafCryptoHeader

/-! ## Configuration -/

/-- `struct ebaf_crypto_config`: what the loader writes into the map
`crypto_config`. -/
structure EbafCryptoConfig where
  key : List UInt8
  keyLen : UInt32
  action : UInt32
  algo : UInt32
  flags : UInt32
  udpPort : UInt16
  deriving DecidableEq

/-! ## Statistics -/

/-- The members of `struct ebaf_crypto_stats`. -/
inductive Counter where
  | packetsSeen | packetsPassed | packetsCryptoOk | packetsCryptoFail | packetsMalformed
  | packetsBadEth | packetsBadIp | packetsBadUdp | packetsBadMagic | packetsBadLength
  | packetsBadAlignment | packetsNoCryptoCtx
  deriving DecidableEq

/-- `struct ebaf_crypto_stats`: one 64-bit number for each counter. -/
abbrev EbafCryptoStats := Counter → UInt64

namespace EbafCryptoStats

/-- `__sync_fetch_and_add(counter, 1)` -/
def inc (c : Counter) (st : EbafCryptoStats) : EbafCryptoStats :=
  fun c' => if c' = c then st c' + 1 else st c'

@[simp] theorem inc_self (c : Counter) (st : EbafCryptoStats) : st.inc c c = st c + 1 :=
  if_pos rfl

theorem inc_of_ne {c c' : Counter} (h : c' ≠ c) (st : EbafCryptoStats) : st.inc c c' = st c' :=
  if_neg h

/-- A malformed packet is counted as such and under its reason. -/
def reason (c : Counter) (st : EbafCryptoStats) : EbafCryptoStats :=
  (st.inc .packetsMalformed).inc c

end EbafCryptoStats

/-! ## Events -/

/-- The array `sample[EBAF_EVENT_SAMPLE_BYTES]` of an event. -/
abbrev Sample := { l : List UInt8 // l.length = ebafEventSampleBytes }

/-- `struct ebaf_crypto_event`, the addresses as the numbers they denote in
network order. -/
structure EbafCryptoEvent where
  timestampNs : UInt64
  srcIp : UInt32
  dstIp : UInt32
  srcPort : UInt16
  dstPort : UInt16
  payloadLen : UInt16
  dataLen : UInt16
  action : UInt8
  algo : UInt8
  result : UInt8
  sampleLen : UInt8
  sample : Sample
  deriving DecidableEq

end Ebaf
