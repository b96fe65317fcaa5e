import Ebaf.TransparentDatagram

/-! # Sealed frames

`sealFrame` is what a completed encryption makes of a datagram: the payload,
padded to whole blocks, is replaced by its ciphertext, the trailer with the IV
follows it, and the length fields grow by what was added.
-/
namespace Ebaf
open ByteWindow

variable {Ctx : Type} {K : CryptoKernel Ctx} {c : Ctx} {f : Frame} {port : UInt16} {iv : List UInt8}

/-! ## Padding -/

theorem padLen_eq (n : Nat) : padLen n = 16 - n % 16 := by
  rw [padLen, and_blockMask, ebafCryptoBlockBytes]
  split <;> omega

theorem padLen_pos (n : Nat) : 0 < padLen n := by rw [padLen_eq]; omega

theorem padLen_le (n : Nat) : padLen n ≤ 16 := by rw [padLen_eq]; omega

theorem padded_aligned (n : Nat) : (n + padLen n) % 16 = 0 := by rw [padLen_eq]; omega

/-- The padding behind a payload of `n` bytes. -/
def padding (n : Nat) : List UInt8 := List.replicate (padLen n) (UInt8.ofNat (padLen n))

@[simp] theorem length_padding (n : Nat) : (padding n).length = padLen n := List.length_replicate

/-! ## Sealed frames -/

/-- The padded payload, which is handed to the cipher. -/
def paddedPayload (f : Frame) : List UInt8 :=
  load f (payloadOff f) (payloadLen f) ++ padding (payloadLen f)

/-- The frame with padding and trailer behind the payload. -/
def withTrailer (iv : List UInt8) (f : Frame) : Frame :=
  store (resize f (f.length + sealDelta f)) (payloadOff f + payloadLen f)
    (padding (payloadLen f) ++ (newHdr (sealedLen f) iv).bytes)

/-- The frame when the cipher is called: the body is still plaintext. -/
def grownFrame (iv : List UInt8) (f : Frame) : Frame :=
  relength ipOff (udpOff f) (sealDelta f) true (withTrailer iv f)

/-- **A completed encryption.** -/
def sealFrame (K : CryptoKernel Ctx) (c : Ctx) (iv : List UInt8) (f : Frame) : Frame :=
  store (grownFrame iv f) (payloadOff f) (K.crypt .encrypt c iv (paddedPayload f))

@[simp] theorem length_withTrailer {iv : List UInt8} :
    (withTrailer iv f).length = f.length + sealDelta f := by simp [withTrailer]

@[simp] theorem length_grownFrame {iv : List UInt8} :
    (grownFrame iv f).length = f.length + sealDelta f := by simp [grownFrame]

@[simp] theorem length_sealFrame {K : CryptoKernel Ctx} {c : Ctx} {iv : List UInt8} :
    (sealFrame K c iv f).length = f.length + sealDelta f := by simp [sealFrame]

@[simp] theorem length_paddedPayload : (paddedPayload f).length = sealedLen f := by
  simp [paddedPayload, sealedLen]

@[simp] theorem length_fillIv (now : UInt64) : (fillIv now).length = ebafCryptoIvBytes := by
  simp [fillIv]

theorem sealDelta_le (f : Frame) : sealDelta f ≤ 40 := by
  have := padLen_le (payloadLen f)
  rw [sealDelta, EbafCryptoHeader.size]
  omega

theorem sealDelta_pos (f : Frame) : 0 < sealDelta f := by
  have := padLen_pos (payloadLen f)
  rw [sealDelta]
  omega

theorem payload_delta (f : Frame) :
    payloadLen f + sealDelta f = sealedLen f + EbafCryptoHeader.size := by
  rw [sealDelta, sealedLen]
  omega

/-! ## What is where -/

theorem byteAt_withTrailer (hf : IsTransparent port f) {iv : List UInt8} {i : Nat}
    (hi : i < payloadOff f + payloadLen f) : byteAt (withTrailer iv f) i = byteAt f i := by
  have := hf.inside
  rw [withTrailer, byteAt_store_out (Or.inl hi), byteAt_resize, if_pos (by omega)]

theorem be16_withTrailer (hf : IsTransparent port f) {iv : List UInt8} {i : Nat}
    (hi : i + 2 ≤ payloadOff f) : be16 (withTrailer iv f) i = be16 f i :=
  be16_congr (byteAt_withTrailer hf (by omega)) (byteAt_withTrailer hf (by omega))

theorem withTrailer_samePointers (hf : IsTransparent port f) (iv : List UInt8) :
    SamePointers f (withTrailer iv f) :=
  byteAt_withTrailer hf (by rw [hf.payloadOff, ipOff]; omega)


theorem load_withTrailer_body (hf : IsTransparent port f) :
    load (withTrailer iv f) (payloadOff f) (sealedLen f) = paddedPayload f := by
  have hin := hf.inside
  have hpad : load (withTrailer iv f) (payloadOff f + payloadLen f) (padding (payloadLen f)).length =
      padding (payloadLen f) := by
    refine load_store_left ?_
    rw [length_resize, length_padding, sealDelta]
    omega
  rw [length_padding] at hpad
  rw [sealedLen, load_add, hpad, paddedPayload]
  congr 1
  exact load_congr fun i hi => byteAt_withTrailer hf (by omega)

/-- Padding and trailer, one after the other. -/
theorem withTrailer_eq : withTrailer iv f =
    store (store (resize f (f.length + sealDelta f)) (payloadOff f + payloadLen f)
      (padding (payloadLen f))) (payloadOff f + sealedLen f) (newHdr (sealedLen f) iv).bytes := by
  rw [withTrailer, ← store_store_append, length_padding, Nat.add_assoc, ← sealedLen]

/-- The trailer of a grown frame. -/
theorem read_withTrailer (hf : IsTransparent port f) (hiv : iv.length = ebafCryptoIvBytes) :
    EbafCryptoHeader.read (withTrailer iv f) (payloadOff f + sealedLen f) =
      newHdr (sealedLen f) iv := by
  have hin := hf.inside
  have hdelta := payload_delta f
  rw [withTrailer_eq]
  refine (EbafCryptoHeader.read_store _ ?_).trans (EbafCryptoHeader.read_bytes _ ?_ ?_ hiv)
  · rw [length_store, length_resize]
    omega
  · show ebafCryptoMagic < _
    decide
  · exact Nat.mod_lt _ (by decide)

/-- Everything behind the headers of a grown frame is as it was written. -/
theorem load_grownFrame (hf : IsTransparent port f) {off n : Nat} (hoff : payloadOff f ≤ off) :
    load (grownFrame iv f) off n = load (withTrailer iv f) off n := by
  rw [hf.payloadOff] at hoff
  exact load_relength (by rw [ipOff]; omega) (by rw [hf.udpOff]; omega)

theorem load_grownFrame_body (hf : IsTransparent port f) :
    load (grownFrame iv f) (payloadOff f) (sealedLen f) = paddedPayload f :=
  (load_grownFrame hf (Nat.le_refl _)).trans (load_withTrailer_body hf)

theorem load_grownFrame_iv (hf : IsTransparent port f) (hiv : iv.length = ebafCryptoIvBytes) :
    load (grownFrame iv f) (payloadOff f + sealedLen f + ebafCryptoIvOffset) ebafCryptoIvBytes =
      iv :=
  (load_grownFrame hf (by omega)).trans (congrArg EbafCryptoHeader.iv (read_withTrailer hf hiv))

/-! ## The fields of a sealed frame -/

theorem byteAt_sealFrame {i : Nat}
    (hi : i < payloadOff f ∨ payloadOff f + sealedLen f ≤ i) :
    byteAt (sealFrame K c iv f) i = byteAt (grownFrame iv f) i :=
  byteAt_store_out (by simpa using hi)

theorem load_sealFrame_body (hf : IsTransparent port f) :
    load (sealFrame K c iv f) (payloadOff f) (sealedLen f) =
      K.crypt .encrypt c iv (paddedPayload f) := by
  have hin := hf.inside
  have hdelta := payload_delta f
  have hlen : (K.crypt .encrypt c iv (paddedPayload f)).length = sealedLen f := by simp
  have hself : load (sealFrame K c iv f) (payloadOff f)
      (K.crypt .encrypt c iv (paddedPayload f)).length = K.crypt .encrypt c iv (paddedPayload f) :=
    load_store_self (by rw [hlen, length_grownFrame]; omega)
  rwa [hlen] at hself

/-- A sealed frame carries the trailer. -/
theorem read_sealFrame (hf : IsTransparent port f) (hiv : iv.length = ebafCryptoIvBytes) :
    EbafCryptoHeader.read (sealFrame K c iv f) (payloadOff f + sealedLen f) =
      newHdr (sealedLen f) iv := by
  refine Eq.trans (EbafCryptoHeader.read_congr fun i _ => ?_) (read_withTrailer hf hiv)
  have hpay := hf.payloadOff
  rw [byteAt_sealFrame (Or.inr (by omega)), grownFrame, byteAt_relength_out]
  · rw [ipOff]; omega
  · rw [ipOff]; omega
  · rw [hf.udpOff]; omega

theorem sealFrame_samePointers (hf : IsTransparent port f) : SamePointers f (sealFrame K c iv f) :=
  ((withTrailer_samePointers hf _).relength (Nat.le_refl _) (by rw [hf.udpOff, ipOff]; omega)).store
    (by rw [hf.payloadOff, ipOff]; omega)

theorem be16_sealFrame {i : Nat} (hi : i + 2 ≤ payloadOff f) :
    be16 (sealFrame K c iv f) i = be16 (grownFrame iv f) i :=
  be16_congr (byteAt_sealFrame (Or.inl (by omega))) (byteAt_sealFrame (Or.inl (by omega)))

/-- A grown frame has room for the headers. -/
theorem grown_room (hf : IsTransparent port f) (iv : List UInt8) :
    ipOff + 12 ≤ udpOff f ∧ udpOff f + 8 ≤ (withTrailer iv f).length := by
  have hlen := hf.length_ge
  rw [hf.udpOff, length_withTrailer, ipOff]
  omega

/-- The new total length, which wraps as the program's 16-bit addition does. -/
theorem ipTotLen_grownFrame (hf : IsTransparent port f) :
    ipTotLen (grownFrame iv f) = (ipTotLen f + sealDelta f) % 65536 := by
  have hdelta := sealDelta_le f
  have hip : ipOff + 2 + 2 ≤ payloadOff f := by rw [hf.payloadOff, ipOff]; omega
  have hroom := grown_room hf iv
  rw [ipTotLen, grownFrame, ipLen_relength hroom.1 hroom.2, be16_withTrailer hf hip,
    lengthAfter_add (by omega), ipTotLen]

theorem ipTotLen_sealFrame (hf : IsTransparent port f) :
    ipTotLen (sealFrame K c iv f) = (ipTotLen f + sealDelta f) % 65536 := by
  have hip : ipOff + 2 + 2 ≤ payloadOff f := by rw [hf.payloadOff, ipOff]; omega
  rw [ipTotLen, be16_sealFrame hip]
  exact ipTotLen_grownFrame hf

/-- The new UDP length: a payload that is small enough leaves room for it. -/
theorem udpLen_sealFrame (hf : IsTransparent port f)
    (hsmall : payloadLen f ≤ ebafMaxTransparentPayload) :
    udpLen (sealFrame K c iv f) = udpLen f + sealDelta f := by
  have hdelta := sealDelta_le f
  have hold := hf.udpLen_eq
  have hudp : udpOff f + 4 + 2 ≤ payloadOff f := by rw [hf.payloadOff, hf.udpOff]; omega
  rw [ebafMaxTransparentPayload] at hsmall
  rw [udpLen, (sealFrame_samePointers hf).udpOff, be16_sealFrame hudp, grownFrame,
    udpLen_relength (grown_room hf _).2, be16_withTrailer hf hudp,
    lengthAfter_add (by omega), ← udpLen, Nat.mod_eq_of_lt (by omega)]

end Ebaf
