import Ebaf.TransparentCipher

/-! # Opened frames

`openFrame` is what a completed decryption makes of a datagram with a trailer:
the body is replaced by its plaintext, the packet is cut by the padding the
plaintext's last byte names and by the trailer, and the length fields shrink by
as much.
-/
namespace Ebaf
open ByteWindow

variable {Ctx : Type} {K : CryptoKernel Ctx} {c : Ctx} {f : Frame} {port : UInt16}

/-- The trailer, where a datagram has one. -/
def tailHdr (f : Frame) : EbafCryptoHeader :=
  EbafCryptoHeader.read f (payloadOff f + openedLen f)

/-- A datagram with a trailer behind a body of whole blocks. -/
structure HasTrailer (f : Frame) : Prop where
  room : EbafCryptoHeader.size ≤ payloadLen f
  magic : (tailHdr f).magic = ebafCryptoMagic
  version : (tailHdr f).version = ebafCryptoVersion
  nonempty : openedLen f ≠ 0
  aligned : openedLen f % 16 = 0
  length : (tailHdr f).payloadLen = openedLen f

/-- The body in front of the trailer. -/
def cipherBody (f : Frame) : List UInt8 := load f (payloadOff f) (openedLen f)

/-- The body after decryption, with its padding. -/
def plainBody (K : CryptoKernel Ctx) (c : Ctx) (f : Frame) : List UInt8 :=
  K.crypt .decrypt c (tailHdr f).iv (cipherBody f)

/-- The length of the padding, as the last byte of the plaintext gives it. -/
def padByte (K : CryptoKernel Ctx) (c : Ctx) (f : Frame) : Nat :=
  (byteAt (plainBody K c f) (openedLen f - 1)).toNat

/-- The padding the program accepts. -/
structure PadOk (K : CryptoKernel Ctx) (c : Ctx) (f : Frame) : Prop where
  pos : 1 ≤ padByte K c f
  block : padByte K c f ≤ ebafCryptoBlockBytes
  body : padByte K c f ≤ openedLen f

/-- The number of bytes decryption cuts off. -/
def openDelta (K : CryptoKernel Ctx) (c : Ctx) (f : Frame) : Nat :=
  padByte K c f + EbafCryptoHeader.size

/-- The frame after the cipher call. -/
def decipheredFrame (K : CryptoKernel Ctx) (c : Ctx) (f : Frame) : Frame :=
  cipherWrites K .decrypt c (payloadOff f) (openedLen f)
    (payloadOff f + openedLen f + ebafCryptoIvOffset) f

/-- The deciphered frame, cut. -/
def cutFrame (K : CryptoKernel Ctx) (c : Ctx) (f : Frame) : Frame :=
  resize (decipheredFrame K c f) (f.length - openDelta K c f)

/-- The cut frame with new length fields, but the old UDP checksum. -/
def unsummedFrame (K : CryptoKernel Ctx) (c : Ctx) (f : Frame) : Frame :=
  refield ipOff (udpOff f) (openDelta K c f) false (cutFrame K c f)

/-- **A completed decryption.** -/
def openFrame (K : CryptoKernel Ctx) (c : Ctx) (f : Frame) : Frame :=
  relength ipOff (udpOff f) (openDelta K c f) false (cutFrame K c f)

@[simp] theorem length_cipherBody : (cipherBody f).length = openedLen f := length_load

@[simp] theorem length_plainBody : (plainBody K c f).length = openedLen f := by simp [plainBody]

@[simp] theorem length_decipheredFrame : (decipheredFrame K c f).length = f.length :=
  length_cipherWrites

@[simp] theorem length_cutFrame : (cutFrame K c f).length = f.length - openDelta K c f := by
  simp [cutFrame]

@[simp] theorem length_unsummedFrame :
    (unsummedFrame K c f).length = f.length - openDelta K c f := by simp [unsummedFrame]

@[simp] theorem length_openFrame : (openFrame K c f).length = f.length - openDelta K c f := by
  simp [openFrame]

/-! ## What is where -/

theorem decipheredFrame_eq : decipheredFrame K c f =
    store (store f (payloadOff f) (plainBody K c f))
      (payloadOff f + openedLen f + ebafCryptoIvOffset)
      (K.ivAfter .decrypt c (tailHdr f).iv (cipherBody f)) :=
  rfl

/-- The headers are left alone by the cipher call. -/
theorem byteAt_decipheredFrame {i : Nat} (hi : i < payloadOff f) :
    byteAt (decipheredFrame K c f) i = byteAt f i := by
  rw [decipheredFrame_eq, byteAt_store_out (by omega), byteAt_store_out (by omega)]

/-- The body is the plaintext. -/
theorem load_decipheredFrame (h : payloadOff f + openedLen f ≤ f.length) :
    load (decipheredFrame K c f) (payloadOff f) (openedLen f) = plainBody K c f := by
  have hself : load (store f (payloadOff f) (plainBody K c f)) (payloadOff f)
      (plainBody K c f).length = plainBody K c f :=
    load_store_self (by rw [length_plainBody]; exact h)
  rw [length_plainBody] at hself
  rw [decipheredFrame_eq, load_store_disjoint (by omega), hself]

theorem HasTrailer.payloadLen_eq (ht : HasTrailer f) :
    payloadLen f = openedLen f + EbafCryptoHeader.size :=
  (Nat.sub_add_cancel ht.room).symm

variable (hf : IsTransparent port f) (ht : HasTrailer f)
include hf ht

/-- What is cut off lies behind the headers. -/
theorem openDelta_le (hp : PadOk K c f) : payloadOff f + openDelta K c f ≤ f.length := by
  have := hf.inside
  have := hp.body
  have := ht.payloadLen_eq
  rw [openDelta]
  omega

theorem byteAt_cutFrame (hp : PadOk K c f) {i : Nat} (hi : i < payloadOff f) :
    byteAt (cutFrame K c f) i = byteAt f i := by
  have := openDelta_le hf ht hp
  rw [cutFrame, byteAt_resize, if_pos (by omega), byteAt_decipheredFrame hi]

theorem be16_cutFrame (hp : PadOk K c f) {i : Nat} (hi : i + 2 ≤ payloadOff f) :
    be16 (cutFrame K c f) i = be16 f i :=
  be16_congr (byteAt_cutFrame hf ht hp (by omega)) (byteAt_cutFrame hf ht hp (by omega))

theorem cutFrame_samePointers (hp : PadOk K c f) : SamePointers f (cutFrame K c f) :=
  byteAt_cutFrame hf ht hp (by rw [hf.payloadOff, ipOff]; omega)

/-! ## The fields of an opened frame -/

omit hf ht in
theorem openDelta_pos : 0 < openDelta K c f := by
  rw [openDelta, EbafCryptoHeader.size]
  omega

omit hf ht in
theorem openDelta_lt (hp : PadOk K c f) : openDelta K c f < 65536 := by
  have := hp.block
  rw [ebafCryptoBlockBytes] at this
  rw [openDelta, EbafCryptoHeader.size]
  omega

/-- A cut frame has room for the headers. -/
theorem cut_room (hp : PadOk K c f) :
    ipOff + 12 ≤ udpOff f ∧ udpOff f + 8 ≤ (cutFrame K c f).length := by
  have hcut := openDelta_le hf ht hp
  rw [hf.payloadOff] at hcut
  rw [hf.udpOff, length_cutFrame, ipOff]
  omega

/-- What is left of the body in a cut frame. -/
theorem load_cutFrame_body (hp : PadOk K c f) :
    load (cutFrame K c f) (payloadOff f) (openedLen f - padByte K c f) =
      (plainBody K c f).take (openedLen f - padByte K c f) := by
  have hin := hf.inside
  have hpay := ht.payloadLen_eq
  have hbody := hp.body
  have hsplit : load (decipheredFrame K c f) (payloadOff f)
      (openedLen f - padByte K c f + padByte K c f) = _ := load_add
  rw [Nat.sub_add_cancel hbody, load_decipheredFrame (by omega)] at hsplit
  rw [cutFrame, load_resize (by rw [openDelta]; omega), hsplit, List.take_left' length_load]

theorem ipTotLen_unsummedFrame (hp : PadOk K c f) :
    ipTotLen (unsummedFrame K c f) = ipTotLen f - openDelta K c f := by
  have hroom := cut_room hf ht hp
  rw [ipTotLen, unsummedFrame, ipLen_refield hroom.1 hroom.2, lengthAfter_sub (openDelta_lt hp),
    be16_cutFrame hf ht hp (by rw [hf.payloadOff, ipOff]; omega), ipTotLen]

theorem ipTotLen_openFrame (hp : PadOk K c f) :
    ipTotLen (openFrame K c f) = ipTotLen f - openDelta K c f := by
  have hroom := cut_room hf ht hp
  rw [ipTotLen, openFrame, ipLen_relength hroom.1 hroom.2, lengthAfter_sub (openDelta_lt hp),
    be16_cutFrame hf ht hp (by rw [hf.payloadOff, ipOff]; omega), ipTotLen]

theorem unsummedFrame_samePointers (hp : PadOk K c f) : SamePointers f (unsummedFrame K c f) :=
  (cutFrame_samePointers hf ht hp).refield (Nat.le_refl _) (by rw [hf.udpOff, ipOff]; omega)

theorem openFrame_samePointers (hp : PadOk K c f) : SamePointers f (openFrame K c f) :=
  (cutFrame_samePointers hf ht hp).relength (Nat.le_refl _) (by rw [hf.udpOff, ipOff]; omega)

theorem udpLen_unsummedFrame (hp : PadOk K c f) :
    udpLen (unsummedFrame K c f) = udpLen f - openDelta K c f := by
  rw [udpLen, (unsummedFrame_samePointers hf ht hp).udpOff, unsummedFrame,
    udpLen_refield (cut_room hf ht hp).2, lengthAfter_sub (openDelta_lt hp),
    be16_cutFrame hf ht hp (by rw [hf.payloadOff, hf.udpOff]; omega), ← udpLen]

theorem udpLen_openFrame (hp : PadOk K c f) :
    udpLen (openFrame K c f) = udpLen f - openDelta K c f := by
  rw [udpLen, (openFrame_samePointers hf ht hp).udpOff, openFrame,
    udpLen_relength (cut_room hf ht hp).2, lengthAfter_sub (openDelta_lt hp),
    be16_cutFrame hf ht hp (by rw [hf.payloadOff, hf.udpOff]; omega), ← udpLen]

theorem load_unsummedFrame_body (hp : PadOk K c f) :
    load (unsummedFrame K c f) (payloadOff f) (openedLen f - padByte K c f) =
      (plainBody K c f).take (openedLen f - padByte K c f) := by
  refine Eq.trans ?_ (load_cutFrame_body hf ht hp)
  exact load_refield (by rw [hf.payloadOff, ipOff]; omega) (by rw [hf.payloadOff, hf.udpOff])

theorem load_openFrame_body (hp : PadOk K c f) :
    load (openFrame K c f) (payloadOff f) (openedLen f - padByte K c f) =
      (plainBody K c f).take (openedLen f - padByte K c f) := by
  refine Eq.trans ?_ (load_cutFrame_body hf ht hp)
  exact load_relength (by rw [hf.payloadOff, ipOff]; omega) (by rw [hf.payloadOff, hf.udpOff])

end Ebaf
