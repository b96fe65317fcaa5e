import Ebaf.FramedCipher
import Ebaf.Datagram

/-! # Building framed datagrams

A framed payload is an EBAF header in front of a body.  With any IV and any body
that is not empty, a datagram with such a payload is framed.
-/
namespace Ebaf
open ByteWindow

/-- The header for a body, with the action byte both programs accept. -/
def bodyHdr (iv body : List UInt8) : EbafCryptoHeader where
  magic := ebafCryptoMagic
  version := ebafCryptoVersion
  action := 1
  payloadLen := body.length % 65536
  iv := iv

/-- A framed payload: the header in front of the body. -/
def framedPayload (iv body : List UInt8) : List UInt8 := (bodyHdr iv body).bytes ++ body

section Payload
variable {port : UInt16} {iv body : List UInt8}

@[simp] theorem length_framedPayload :
    (framedPayload iv body).length = EbafCryptoHeader.size + body.length := by
  simp [framedPayload]

/-- The header of a body reads back. -/
theorem read_bodyHdr (hiv : iv.length = ebafCryptoIvBytes) :
    EbafCryptoHeader.read (bodyHdr iv body).bytes 0 = bodyHdr iv body := by
  refine EbafCryptoHeader.read_bytes _ ?_ (Nat.mod_lt _ (by decide)) hiv
  show ebafCryptoMagic < _
  decide

theorem read_framedPayload (hiv : iv.length = ebafCryptoIvBytes) :
    EbafCryptoHeader.read (framedPayload iv body) 0 = bodyHdr iv body := by
  refine Eq.trans (EbafCryptoHeader.read_congr fun i hi => ?_) (read_bodyHdr hiv)
  rw [framedPayload, byteAt_append, if_pos (by simpa using hi)]

theorem framedHeader_datagram (hiv : iv.length = ebafCryptoIvBytes) :
    framedHeader (datagram port (framedPayload iv body)) = bodyHdr iv body := by
  rw [framedHeader, payloadOff_datagram]
  exact (read_datagram (i := 0)).trans (read_framedPayload hiv)

theorem framedBodyLen_datagram (h : Fits (framedPayload iv body)) :
    framedBodyLen (datagram port (framedPayload iv body)) = body.length := by
  rw [framedBodyLen, payloadLen_datagram h, length_framedPayload, Nat.add_sub_cancel_left]

theorem framedBody_datagram (h : Fits (framedPayload iv body)) :
    framedBody (datagram port (framedPayload iv body)) = body := by
  have hoff : framedBodyOff (datagram port (framedPayload iv body)) =
      42 + EbafCryptoHeader.size := by
    rw [framedBodyOff, payloadOff_datagram]
  rw [framedBody, framedBodyLen_datagram h, hoff, load_datagram, framedPayload]
  refine ext_byteAt length_load fun i hi => ?_
  rw [length_load] at hi
  rw [byteAt_load hi, byteAt_append, EbafCryptoHeader.length_bytes,
    if_neg (Nat.not_lt.mpr (Nat.le_add_right _ _)), Nat.add_sub_cancel_left]

/-- **A datagram with a framed payload is framed.** -/
theorem datagram_isFramed (h : Fits (framedPayload iv body)) (hiv : iv.length = ebafCryptoIvBytes)
    (hbody : body ≠ []) : IsFramed port (datagram port (framedPayload iv body)) := by
  have hlen :
      (datagram port (framedPayload iv body)).length = 42 + (framedPayload iv body).length :=
    length_datagram
  have hudp : udpOff (datagram port (framedPayload iv body)) = 34 := udpOff_datagram
  have hsmall : body.length < 65536 := by
    rw [Fits, length_framedPayload] at h
    omega
  constructor
  · omega
  · exact ethProto_datagram
  · rw [ipOff]
    omega
  · exact Nat.le_of_eq ipIhl_datagram.symm
  · omega
  · exact ipProtocol_datagram
  · omega
  · exact udpDest_datagram
  · rw [udpLen_datagram h]
    exact Nat.le_add_right _ _
  · rw [payloadOff_datagram, payloadLen_datagram h, hlen]
  · rw [payloadLen_datagram h, length_framedPayload]
    exact Nat.le_add_right _ _
  · rw [framedHeader_datagram hiv]
    rfl
  · rw [framedHeader_datagram hiv]
    rfl
  · rw [framedHeader_datagram hiv, framedBodyLen_datagram h]
    exact Nat.mod_eq_of_lt hsmall
  · rw [framedBodyLen_datagram h]
    exact fun h0 => hbody (List.length_eq_zero_iff.mp h0)

end Payload

/-! ## A known block

Under AES-128-CBC with the key `knownKey` and the IV `knownIv`, `knownCipher` is
the encryption of `knownPlain`, and this is the encryption of
`knownDeciphered`. -/

def knownKey : List UInt8 :=
  [0x2b, 0x7e, 0x15, 0x16, 0x28, 0xae, 0xd2, 0xa6, 0xab, 0xf7, 0x15, 0x88, 0x09, 0xcf, 0x4f, 0x3c]

def knownIv : List UInt8 := [0, 1, 2, 3, 4, 5, 6, 7, 8, 9, 10, 11, 12, 13, 14, 15]

def knownPlain : List UInt8 :=
  [0x6b, 0xc1, 0xbe, 0xe2, 0x2e, 0x40, 0x9f, 0x96, 0xe9, 0x3d, 0x7e, 0x11, 0x73, 0x93, 0x17, 0x2a]

def knownCipher : List UInt8 :=
  [0x76, 0x49, 0xab, 0xac, 0x81, 0x19, 0xb2, 0x46, 0xce, 0xe9, 0x8e, 0x9b, 0x12, 0xe9, 0x19, 0x7d]

def knownDeciphered : List UInt8 :=
  [0x50, 0x04, 0x96, 0xe1, 0x09, 0x68, 0x6a, 0x8b, 0x79, 0x62, 0x6c, 0x77, 0x34, 0xfd, 0x8b, 0xfe]

def knownKernel (Ctx : Type) : CryptoKernel Ctx :=
  .knownAnswers Ctx [knownDeciphered, knownPlain, knownCipher] (n := 16) (by decide)

/-- The configuration for AES-CBC with this key, at the default port. -/
def knownConfig (action : UInt32) : EbafCryptoConfig where
  key := knownKey ++ List.replicate 16 0
  keyLen := 16
  action := action
  algo := ebafAlgoCbcAes
  flags := 0
  udpPort := 7777

/-- A sender and a receiver with this key; a context is its key. -/
def knownSender : Env (List UInt8) := .smooth (knownConfig ebafActionEncrypt) knownKey

def knownReceiver : Env (List UInt8) := .smooth (knownConfig ebafActionDecrypt) knownKey

theorem knownKernel_inverts {Ctx : Type} {c : Ctx} {ok : Nat → Prop} :
    (knownKernel Ctx).Inverts c ok :=
  CryptoKernel.knownAnswers_inverts _ c ok

/-- A datagram with a framed block. -/
def blockDatagram (block : List UInt8) : Frame := datagram 7777 (framedPayload knownIv block)

/-- The datagram with the plain block, as it enters a program. -/
def plainBlock : PacketState (List UInt8) := entering (blockDatagram knownPlain) (some .zero)

end Ebaf
