import Ebaf.FramedPayload
import Ebaf.OpenedFrame

/-! # Building datagrams for the transparent program

Every datagram is one the transparent program accepts.  A trailed payload is a
body with its EBAF header behind it.
-/
namespace Ebaf
open ByteWindow

variable {port : UInt16} {payload iv body : List UInt8}

/-- A datagram is one the transparent program accepts. -/
theorem datagram_isTransparent (h : Fits payload) : IsTransparent port (datagram port payload) where
  proto := ethProto_datagram
  ihl := ipIhl_datagram
  whole := not_isFragment_datagram
  udp := ipProtocol_datagram
  port := udpDest_datagram
  udpLen := by
    rw [udpLen_datagram h]
    exact Nat.le_add_right _ _
  inside := by
    rw [payloadOff_datagram, payloadLen_datagram h, length_datagram]

/-- A transparent payload after encryption: the header behind the body. -/
def trailedPayload (iv body : List UInt8) : List UInt8 := body ++ (bodyHdr iv body).bytes

@[simp] theorem length_trailedPayload :
    (trailedPayload iv body).length = body.length + EbafCryptoHeader.size := by
  simp [trailedPayload]

theorem openedLen_datagram (h : Fits (trailedPayload iv body)) :
    openedLen (datagram port (trailedPayload iv body)) = body.length := by
  rw [openedLen, payloadLen_datagram h, length_trailedPayload, Nat.add_sub_cancel]

theorem tailHdr_datagram (h : Fits (trailedPayload iv body)) (hiv : iv.length = ebafCryptoIvBytes) :
    tailHdr (datagram port (trailedPayload iv body)) = bodyHdr iv body := by
  have hread : EbafCryptoHeader.read (trailedPayload iv body) body.length =
      EbafCryptoHeader.read (bodyHdr iv body).bytes 0 :=
    EbafCryptoHeader.read_congr fun i _ => by
      rw [trailedPayload, byteAt_append, if_neg (by omega), Nat.add_sub_cancel_left, Nat.zero_add]
  rw [tailHdr, payloadOff_datagram, openedLen_datagram h]
  exact read_datagram.trans (hread.trans (read_bodyHdr hiv))

/-- **A datagram with a trailed payload has a trailer.** -/
theorem datagram_hasTrailer (h : Fits (trailedPayload iv body))
    (hiv : iv.length = ebafCryptoIvBytes) (hbody : body ≠ []) (haligned : body.length % 16 = 0) :
    HasTrailer (datagram port (trailedPayload iv body)) := by
  have hsmall : body.length < 65536 := by
    rw [Fits, length_trailedPayload] at h
    omega
  constructor
  · rw [payloadLen_datagram h, length_trailedPayload]
    exact Nat.le_add_left _ _
  · rw [tailHdr_datagram h hiv]
    rfl
  · rw [tailHdr_datagram h hiv]
    rfl
  · rw [openedLen_datagram h]
    exact fun h0 => hbody (List.length_eq_zero_iff.mp h0)
  · rwa [openedLen_datagram h]
  · rw [tailHdr_datagram h hiv, openedLen_datagram h]
    exact Nat.mod_eq_of_lt hsmall

/-! ## A known payload

Under the key `knownKey` and the IV made from the clock value 1000000000,
`pingCipher` is the encryption of the padded payload `ping`. -/

def ping : List UInt8 := [0x70, 0x69, 0x6e, 0x67]

def pingCipher : List UInt8 :=
  [0x20, 0x89, 0x26, 0x39, 0xe1, 0x6f, 0x7a, 0xa1, 0x7a, 0x9f, 0x25, 0x1e, 0x9e, 0xc2, 0x1d, 0x5e]

def pingKernel (Ctx : Type) : CryptoKernel Ctx :=
  .knownAnswers Ctx [ping ++ List.replicate 12 12, pingCipher] (n := 16) (by decide)

theorem pingKernel_inverts {Ctx : Type} {c : Ctx} {ok : Nat → Prop} :
    (pingKernel Ctx).Inverts c ok :=
  CryptoKernel.knownAnswers_inverts _ c ok

def pingDatagram : Frame := datagram 7777 ping

/-- The datagram as it enters a program. -/
def pingPacket : PacketState (List UInt8) := entering pingDatagram (some .zero)

/-- A datagram with an encrypted block and its trailer. -/
def trailedPacket (iv block : List UInt8) : PacketState (List UInt8) :=
  entering (datagram 7777 (trailedPayload iv block)) (some .zero)

theorem pingDatagram_isTransparent : IsTransparent 7777 pingDatagram :=
  datagram_isTransparent (by decide)

end Ebaf
