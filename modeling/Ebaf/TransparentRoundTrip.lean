import Ebaf.TransparentEncrypt
import Ebaf.TransparentDecrypt
import Ebaf.TrailedPayload

/-! # Transparent round trip

What one end seals, the other end opens.  On frames this says that `openFrame`
undoes `sealFrame` (`restored`): the trailer tells where the body is, the
plaintext's last byte how much of it is padding, and the length fields and the
IP checksum go back the way they came.  `transparent_round_trip` says that the
two runs of the program are these two functions.
-/
namespace Ebaf
open ByteWindow EarlyExit

variable {Ctx : Type} {K : CryptoKernel Ctx} {c : Ctx} {f : Frame} {port : UInt16} {iv : List UInt8}

/-- A datagram as a sender hands it to encryption: not empty, small enough, and
of the total length its UDP length implies. -/
structure IsPlain (port : UInt16) (f : Frame) : Prop extends IsTransparent port f where
  nonempty : payloadLen f ≠ 0
  small : payloadLen f ≤ ebafMaxTransparentPayload
  total : ipTotLen f = 20 + Ebaf.udpLen f

/-- **A frame `g` is the datagram `f` again**: up to the end of the payload every
byte is the same, but for the UDP checksum, which is cleared, and an IP checksum
of `0xffff`, which may have become the other zero. -/
structure Restored (f g : Frame) : Prop where
  length : g.length = f.length
  bytes : ∀ i, i < payloadOff f + payloadLen f → ¬ (ipOff + 10 ≤ i ∧ i < ipOff + 12) →
    ¬ (udpOff f + 6 ≤ i ∧ i < udpOff f + 8) → byteAt g i = byteAt f i
  ipCheck : ipCheck f ≠ 0xffff → ipCheck g = ipCheck f
  udpCheck : udpCheck g = 0

/-! ## A sealed frame is a datagram with a trailer -/

section Sealed
variable (hf : IsPlain port f)
include hf

theorem IsPlain.delta_fits : ipTotLen f + sealDelta f < 65536 := by
  have hdelta := sealDelta_le f
  have hsmall := hf.small
  have hudp := hf.udpLen_eq
  have htotal := hf.total
  rw [ebafMaxTransparentPayload] at hsmall
  omega

theorem payloadOff_sealFrame : payloadOff (sealFrame K c iv f) = payloadOff f :=
  (sealFrame_samePointers hf.toIsTransparent).payloadOff

theorem payloadLen_sealFrame : payloadLen (sealFrame K c iv f) = payloadLen f + sealDelta f := by
  have hudp := hf.udpLen_eq
  rw [payloadLen, udpLen_sealFrame hf.toIsTransparent hf.small, hudp]
  omega

theorem openedLen_sealFrame : openedLen (sealFrame K c iv f) = sealedLen f := by
  have hdelta := payload_delta f
  rw [openedLen, payloadLen_sealFrame hf]
  omega

/-- A byte in front of the payload that encryption does not write. -/
theorem byteAt_sealFrame_header {i : Nat} (hi : i < payloadOff f)
    (hip : ¬ (ipOff + 2 ≤ i ∧ i < ipOff + 4)) (hcheck : ¬ (ipOff + 10 ≤ i ∧ i < ipOff + 12))
    (hudp : ¬ (udpOff f + 4 ≤ i ∧ i < udpOff f + 8)) :
    byteAt (sealFrame K c iv f) i = byteAt f i := by
  rw [byteAt_sealFrame (Or.inl hi), grownFrame,
    byteAt_relength_out (by omega) (by omega) (by omega),
    byteAt_withTrailer hf.toIsTransparent (by omega)]

/-- A sealed frame is accepted by the other end. -/
theorem sealFrame_isTransparent : IsTransparent port (sealFrame K c iv f) := by
  have hpay := hf.payloadOff
  have hudp := hf.udpOff
  have hsame : SamePointers f (sealFrame K c iv f) := sealFrame_samePointers hf.toIsTransparent
  have keep : ∀ {i}, i + 2 ≤ payloadOff f → (i + 2 ≤ ipOff + 2 ∨ ipOff + 4 ≤ i) →
      (i + 2 ≤ ipOff + 10 ∨ ipOff + 12 ≤ i) → (i + 2 ≤ udpOff f + 4 ∨ udpOff f + 8 ≤ i) →
      be16 (sealFrame K c iv f) i = be16 f i := by
    intro i h1 h2 h3 h4
    exact be16_congr
      (byteAt_sealFrame_header hf (by omega) (by omega) (by omega) (by omega))
      (byteAt_sealFrame_header hf (by omega) (by omega) (by omega) (by omega))
  constructor
  · rw [ethProto, keep (by omega) (by rw [ipOff]; omega) (by rw [ipOff]; omega) (by omega)]
    exact hf.proto
  · rw [ipIhl, hsame]
    exact hf.ihl
  · rw [isFragment, ipFragOff, keep (by rw [ipOff]; omega) (by omega) (by omega)
      (by rw [hudp, ipOff]; omega)]
    exact hf.whole
  · rw [ipProtocol, byteAt_sealFrame_header hf (by rw [hpay, ipOff]; omega) (by omega) (by omega)
      (by rw [hudp, ipOff]; omega)]
    exact hf.udp
  · rw [udpDest, hsame.udpOff, keep (by omega) (by rw [hudp, ipOff]; omega)
      (by rw [hudp, ipOff]; omega) (by omega)]
    exact hf.port
  · rw [udpLen_sealFrame hf.toIsTransparent hf.small]
    have := hf.udpLen
    omega
  · rw [payloadOff_sealFrame hf, payloadLen_sealFrame hf, length_sealFrame]
    have := hf.inside
    omega

variable (hiv : iv.length = ebafCryptoIvBytes)
include hiv

theorem tailHdr_sealFrame : tailHdr (sealFrame K c iv f) = newHdr (sealedLen f) iv := by
  rw [tailHdr, payloadOff_sealFrame hf, openedLen_sealFrame hf]
  exact read_sealFrame hf.toIsTransparent hiv

theorem sealFrame_hasTrailer : HasTrailer (sealFrame K c iv f) := by
  have hdelta := payload_delta f
  have hsmall := hf.small
  have hpad := padLen_le (payloadLen f)
  have hlen : sealedLen f < 65536 := by
    rw [ebafMaxTransparentPayload] at hsmall
    rw [sealedLen]
    omega
  have htail := tailHdr_sealFrame hf hiv (K := K) (c := c)
  constructor
  · rw [payloadLen_sealFrame hf]
    omega
  · rw [htail]
    rfl
  · rw [htail]
    rfl
  · rw [openedLen_sealFrame hf, sealedLen]
    have := hf.nonempty
    omega
  · rw [openedLen_sealFrame hf, sealedLen]
    exact padded_aligned _
  · rw [htail, openedLen_sealFrame hf]
    exact Nat.mod_eq_of_lt hlen

/-- Decryption finds the padded payload. -/
theorem plainBody_sealFrame (hinv : K.Inverts c fun n => n % 16 = 0) :
    plainBody K c (sealFrame K c iv f) = paddedPayload f := by
  have hbody : cipherBody (sealFrame K c iv f) = K.crypt .encrypt c iv (paddedPayload f) := by
    rw [cipherBody, payloadOff_sealFrame hf, openedLen_sealFrame hf]
    exact load_sealFrame_body hf.toIsTransparent
  rw [plainBody, tailHdr_sealFrame hf hiv, hbody]
  refine hinv _ _ ?_
  rw [length_paddedPayload, sealedLen]
  exact padded_aligned _

/-- The last byte of the plaintext is the length of the padding. -/
theorem padByte_sealFrame (hinv : K.Inverts c fun n => n % 16 = 0) :
    padByte K c (sealFrame K c iv f) = padLen (payloadLen f) := by
  have hpos := padLen_pos (payloadLen f)
  have hle := padLen_le (payloadLen f)
  rw [padByte, plainBody_sealFrame hf hiv hinv, openedLen_sealFrame hf, paddedPayload, sealedLen,
    byteAt_append, if_neg (by rw [length_load]; omega), length_load, padding,
    byteAt_replicate (by omega), UInt8.toNat_ofNat']
  omega

theorem openDelta_sealFrame (hinv : K.Inverts c fun n => n % 16 = 0) :
    openDelta K c (sealFrame K c iv f) = sealDelta f := by
  rw [openDelta, padByte_sealFrame hf hiv hinv, sealDelta]

theorem padOk_sealFrame (hinv : K.Inverts c fun n => n % 16 = 0) :
    PadOk K c (sealFrame K c iv f) := by
  have hpos := padLen_pos (payloadLen f)
  have hle := padLen_le (payloadLen f)
  constructor
  · rw [padByte_sealFrame hf hiv hinv]
    omega
  · rw [padByte_sealFrame hf hiv hinv]
    exact hle
  · rw [padByte_sealFrame hf hiv hinv, openedLen_sealFrame hf, sealedLen]
    omega

/-! ## Opening it -/

theorem ipTotLen_open_seal (hinv : K.Inverts c fun n => n % 16 = 0) :
    ipTotLen (openFrame K c (sealFrame K c iv f)) = ipTotLen f := by
  have hpad := padOk_sealFrame hf hiv hinv
  rw [ipTotLen_openFrame (sealFrame_isTransparent hf) (sealFrame_hasTrailer hf hiv) hpad,
    openDelta_sealFrame hf hiv hinv, ipTotLen_sealFrame hf.toIsTransparent,
    Nat.mod_eq_of_lt hf.delta_fits, Nat.add_sub_cancel]

theorem udpLen_open_seal (hinv : K.Inverts c fun n => n % 16 = 0) :
    udpLen (openFrame K c (sealFrame K c iv f)) = udpLen f := by
  have hpad := padOk_sealFrame hf hiv hinv
  rw [udpLen_openFrame (sealFrame_isTransparent hf) (sealFrame_hasTrailer hf hiv) hpad,
    openDelta_sealFrame hf hiv hinv, udpLen_sealFrame hf.toIsTransparent hf.small,
    Nat.add_sub_cancel]

theorem open_seal_samePointers (hinv : K.Inverts c fun n => n % 16 = 0) :
    SamePointers f (openFrame K c (sealFrame K c iv f)) :=
  (openFrame_samePointers (sealFrame_isTransparent hf) (sealFrame_hasTrailer hf hiv)
    (padOk_sealFrame hf hiv hinv)).trans (sealFrame_samePointers hf.toIsTransparent)

/-- The payload is back in its place. -/
theorem load_open_seal (hinv : K.Inverts c fun n => n % 16 = 0) :
    load (openFrame K c (sealFrame K c iv f)) (payloadOff f) (payloadLen f) =
      load f (payloadOff f) (payloadLen f) := by
  have hpad := padOk_sealFrame hf hiv hinv
  have hbody := load_openFrame_body (sealFrame_isTransparent hf) (sealFrame_hasTrailer hf hiv) hpad
  rwa [payloadOff_sealFrame hf, openedLen_sealFrame hf, padByte_sealFrame hf hiv hinv, sealedLen,
    Nat.add_sub_cancel, plainBody_sealFrame hf hiv hinv, paddedPayload,
    List.take_left' length_load] at hbody

/-- A byte of the headers that neither direction writes. -/
theorem byteAt_open_seal (hinv : K.Inverts c fun n => n % 16 = 0) {i : Nat}
    (hi : i < payloadOff f) (hip : ¬ (ipOff + 2 ≤ i ∧ i < ipOff + 4))
    (hcheck : ¬ (ipOff + 10 ≤ i ∧ i < ipOff + 12)) (hudp : ¬ (udpOff f + 4 ≤ i ∧ i < udpOff f + 8)) :
    byteAt (openFrame K c (sealFrame K c iv f)) i = byteAt f i := by
  have hpad := padOk_sealFrame hf hiv hinv
  have hptr : SamePointers f (sealFrame K c iv f) := sealFrame_samePointers hf.toIsTransparent
  rw [openFrame, hptr.udpOff, byteAt_relength_out (by omega) (by omega) (by omega),
    byteAt_cutFrame (sealFrame_isTransparent hf) (sealFrame_hasTrailer hf hiv) hpad
      (by rwa [payloadOff_sealFrame hf]), byteAt_sealFrame_header hf hi hip hcheck hudp]

/-- The IP checksum is updated forth and back. -/
theorem ipCheck_open_seal (hinv : K.Inverts c fun n => n % 16 = 0) :
    ipCheck (openFrame K c (sealFrame K c iv f)) =
      if ipCheck f = 0xffff then 0 else ipCheck f := by
  have hsealed : IsTransparent port (sealFrame K c iv f) := sealFrame_isTransparent hf
  have htrailer := sealFrame_hasTrailer hf hiv (K := K) (c := c)
  have hpad := padOk_sealFrame hf hiv hinv
  have hpay := hf.payloadOff
  have hroom := grown_room hf.toIsTransparent iv
  have hcut := cut_room hsealed htrailer hpad
  have hdelta := sealDelta_le f
  have hlen : ipTotLen (sealFrame K c iv f) = (ipTotLen f + sealDelta f) % 65536 :=
    ipTotLen_sealFrame hf.toIsTransparent
  have hsum : ipCheck (sealFrame K c iv f) =
      OnesComplement.replace 65535 (ipCheck f) (ipTotLen f) (ipTotLen f + sealDelta f) := by
    rw [ipCheck, be16_sealFrame (by rw [hpay, ipOff]; omega), grownFrame,
      ipCheck_relength hroom.1 hroom.2,
      be16_withTrailer hf.toIsTransparent (by rw [hpay, ipOff]; omega),
      be16_withTrailer hf.toIsTransparent (by rw [hpay, ipOff]; omega), ← ipTotLen, ← ipCheck,
      lengthAfter_add (by omega), Nat.mod_eq_of_lt hf.delta_fits]
  have hback : ipCheck (openFrame K c (sealFrame K c iv f)) =
      OnesComplement.replace 65535 (ipCheck (sealFrame K c iv f)) (ipTotLen f + sealDelta f)
        (ipTotLen f) := by
    rw [ipCheck, openFrame, ipCheck_relength hcut.1 hcut.2,
      be16_cutFrame hsealed htrailer hpad (by rw [payloadOff_sealFrame hf, hpay, ipOff]; omega),
      be16_cutFrame hsealed htrailer hpad (by rw [payloadOff_sealFrame hf, hpay, ipOff]; omega),
      ← ipTotLen, ← ipCheck, lengthAfter_sub (openDelta_lt hpad), openDelta_sealFrame hf hiv hinv,
      hlen, Nat.mod_eq_of_lt hf.delta_fits, Nat.add_sub_cancel]
  have hfits := hf.delta_fits
  rw [hback, hsum]
  exact OnesComplement.replace_replace (Nat.le_of_lt_succ be16_lt) (by omega) (by omega)

/-- **Opening undoes sealing.** -/
theorem restored (hinv : K.Inverts c fun n => n % 16 = 0) :
    Restored f (openFrame K c (sealFrame K c iv f)) := by
  have hsealed : IsTransparent port (sealFrame K c iv f) := sealFrame_isTransparent hf
  have htrailer := sealFrame_hasTrailer hf hiv (K := K) (c := c)
  have hpad := padOk_sealFrame hf hiv hinv
  have hptr := open_seal_samePointers hf hiv hinv
  refine ⟨?_, fun i hi hcheck hudp => ?_, fun hne => ?_, ?_⟩
  · rw [length_openFrame, openDelta_sealFrame hf hiv hinv, length_sealFrame, Nat.add_sub_cancel]
  · by_cases hbody : payloadOff f ≤ i
    · -- the payload
      obtain ⟨j, rfl⟩ := Nat.exists_eq_add_of_le hbody
      have hj : j < payloadLen f := by omega
      have := congrArg (fun l => byteAt l j) (load_open_seal hf hiv hinv)
      simpa only [byteAt_load hj] using this
    · by_cases hip : ipOff + 2 ≤ i ∧ i < ipOff + 4
      · -- the total length
        obtain ⟨j, rfl⟩ := Nat.exists_eq_add_of_le hip.1
        exact byteAt_of_be16 (ipTotLen_open_seal hf hiv hinv) (by omega)
      · by_cases hlen : udpOff f + 4 ≤ i ∧ i < udpOff f + 6
        · -- the UDP length
          obtain ⟨j, rfl⟩ := Nat.exists_eq_add_of_le hlen.1
          have := udpLen_open_seal hf hiv hinv
          rw [udpLen, hptr.udpOff] at this
          exact byteAt_of_be16 this (by omega)
        · exact byteAt_open_seal hf hiv hinv (by omega) hip hcheck (by omega)
  · rw [ipCheck_open_seal hf hiv hinv, if_neg hne]
  · have hsame : SamePointers f (sealFrame K c iv f) := sealFrame_samePointers hf.toIsTransparent
    rw [udpCheck, hptr.udpOff, ← hsame.udpOff, openFrame]
    exact udpCheck_relength (cut_room hsealed htrailer hpad).2

end Sealed

/-! ## On the program -/

/-- The helpers and kfuncs a packet goes through succeed; the ring buffer may be
full. -/
def HelpersOk (e : Env Ctx) : Prop :=
  ∀ call, call ≠ .ringbufReserve → (∀ i, call ≠ .sampleLoad i) → e.fails call = false

namespace HelpersOk
variable {e : Env Ctx} (h : HelpersOk e)
include h

theorem keyed (hslot : e.slot = some (some c)) : Keyed e c where
  installed := hslot
  dynptrs := ⟨h _ (by simp) (by simp), h _ (by simp) (by simp), h _ (by simp) (by simp),
    h _ (by simp) (by simp), h _ (by simp) (by simp)⟩

theorem fieldCalls : FieldCallsOk e :=
  ⟨h _ (by simp) (by simp), h _ (by simp) (by simp), h _ (by simp) (by simp),
    h _ (by simp) (by simp), h _ (by simp) (by simp)⟩

theorem growCalls (f : Frame) : GrowCallsOk e f where
  pad _ _ := h _ (by simp) (by simp)
  trailer := h _ (by simp) (by simp)
  fields := h.fieldCalls
  check := h _ (by simp) (by simp)

end HelpersOk

variable {e : Env Ctx} {config : EbafCryptoConfig} {s : PacketState Ctx}

/-- Encryption of a plain datagram completes. -/
theorem sealed_of_plain (hconfig : e.config = some config)
    (henc : config.action = ebafActionEncrypt) (halgo : config.algo = ebafAlgoCbcAes)
    (hplain : IsPlain config.udpPort s.frame) (hslot : e.slot = some (some c))
    (hok : HelpersOk e) :
    ((tcTransparent K e).exec s).frame = sealFrame K c (fillIv e.ivClock) s.frame ∧
      Transformed s ((tcTransparent K e).exec s) ∧
      ((tcTransparent K e).exec s).stats = (s.accounted .cryptoOk).stats := by
  have ready : ReadyToSeal e config s.frame c :=
    { accepted := ⟨hplain.toIsTransparent, halgo, Or.inl henc⟩
      grows := ⟨hplain.nonempty, hplain.small, hok _ (by simp) (by simp)⟩
      calls := hok.growCalls _
      keyed := hok.keyed hslot }
  generalize hs' : (tcTransparent K e).exec s = s'
  cases hs' ▸ tcTransparent_encrypt_spec (s := s) hconfig henc with
  | refused hn _ => exact absurd ⟨ready.accepted, ready.grows⟩ hn
  | stranded _ _ hn _ => exact absurd ready (hn c)
  | cipherFailed _ _ hcipher _ =>
    rw [hok .cipher (by simp) (by simp)] at hcipher
    cases hcipher
  | ivLost _ _ _ hiv _ _ _ _ =>
    rw [hok .ivStore (by simp) (by simp)] at hiv
    cases hiv
  | sealed c' h _ _ hs =>
    obtain rfl := ready.keyed.unique h.keyed
    rw [hs]
    exact ⟨rfl, ⟨_, rfl, rfl⟩, rfl⟩

/-- Decryption of a sealed datagram completes. -/
theorem opened_of_sealed (hconfig : e.config = some config)
    (hdec : config.action = ebafActionDecrypt) (halgo : config.algo = ebafAlgoCbcAes)
    (hplain : IsPlain config.udpPort f) (hiv : iv.length = ebafCryptoIvBytes)
    (hframe : s.frame = sealFrame K c iv f) (hslot : e.slot = some (some c)) (hok : HelpersOk e)
    (hinv : K.Inverts c fun n => n % 16 = 0) :
    ((tcTransparent K e).exec s).frame = openFrame K c (sealFrame K c iv f) ∧
      Transformed s ((tcTransparent K e).exec s) ∧
      ((tcTransparent K e).exec s).stats = (s.accounted .cryptoOk).stats := by
  have ready : ReadyToOpen e config s.frame c := by
    rw [hframe]
    exact
      { accepted := ⟨sealFrame_isTransparent hplain, halgo, Or.inr hdec⟩
        trailer := sealFrame_hasTrailer hplain hiv
        load := hok _ (by simp) (by simp)
        keyed := hok.keyed hslot }
  have trims : Trims K e c s.frame := by
    rw [hframe]
    exact ⟨padOk_sealFrame hplain hiv hinv, hok _ (by simp) (by simp), hok _ (by simp) (by simp)⟩
  have refields : Refields K e c s.frame := by
    rw [hframe]
    refine ⟨hok.fieldCalls, ?_, ?_⟩
    · rw [openDelta_sealFrame hplain hiv hinv, ipTotLen_sealFrame hplain.toIsTransparent,
        Nat.mod_eq_of_lt hplain.delta_fits]
      exact Nat.le_add_left _ _
    · rw [openDelta_sealFrame hplain hiv hinv,
        udpLen_sealFrame hplain.toIsTransparent hplain.small]
      exact Nat.le_add_left _ _
  have check : e.fails .udpCheckStore = false := hok _ (by simp) (by simp)
  generalize hs' : (tcTransparent K e).exec s = s'
  cases hs' ▸ tcTransparent_decrypt_spec (s := s) hconfig hdec with
  | refused hn _ => exact absurd ready (hn c)
  | cipherFailed _ _ hcipher _ =>
    rw [hok .cipher (by simp) (by simp)] at hcipher
    cases hcipher
  | undone c' h _ hnot _ =>
    obtain rfl := ready.keyed.unique h.keyed
    cases hnot with
    | kept hn _ => exact absurd trims hn
    | halfway _ hn _ => exact absurd refields hn
    | unsummed _ _ hfail _ => simp [check] at hfail
  | opened c' h _ _ _ _ hs =>
    obtain rfl := ready.keyed.unique h.keyed
    rw [hs]
    exact ⟨congrArg (openFrame K c') hframe, ⟨_, rfl, rfl⟩, rfl⟩

/-- **Transparent round trip.**  A plain datagram, with any bytes behind it, is
encrypted by one run of `tc_transparent` and decrypted by another with the same
context and port; both runs complete and count the packet as transformed, and
the second leaves the datagram restored. -/
theorem transparent_round_trip (K : CryptoKernel Ctx) (e₁ e₂ : Env Ctx) (s₁ s₂ : PacketState Ctx)
    (config₁ config₂ : EbafCryptoConfig) (c : Ctx) (hconfig₁ : e₁.config = some config₁)
    (hconfig₂ : e₂.config = some config₂) (henc : config₁.action = ebafActionEncrypt)
    (hdec : config₂.action = ebafActionDecrypt) (halgo₁ : config₁.algo = ebafAlgoCbcAes)
    (halgo₂ : config₂.algo = ebafAlgoCbcAes) (hport : config₂.udpPort = config₁.udpPort)
    (hplain : IsPlain config₁.udpPort s₁.frame) (hslot₁ : e₁.slot = some (some c))
    (hslot₂ : e₂.slot = some (some c)) (hok₁ : HelpersOk e₁) (hok₂ : HelpersOk e₂)
    (hinv : K.Inverts c fun n => n % 16 = 0)
    (hreceived : s₂.frame = ((tcTransparent K e₁).exec s₁).frame) :
    (Transformed s₁ ((tcTransparent K e₁).exec s₁) ∧
        ((tcTransparent K e₁).exec s₁).stats = (s₁.accounted .cryptoOk).stats) ∧
      (Transformed s₂ ((tcTransparent K e₂).exec s₂) ∧
        ((tcTransparent K e₂).exec s₂).stats = (s₂.accounted .cryptoOk).stats) ∧
      Restored s₁.frame ((tcTransparent K e₂).exec s₂).frame := by
  have hiv : (fillIv e₁.ivClock).length = ebafCryptoIvBytes := length_fillIv _
  obtain ⟨hsealed, hsent⟩ := sealed_of_plain (K := K) hconfig₁ henc halgo₁ hplain hslot₁ hok₁
  have hplain₂ : IsPlain config₂.udpPort s₁.frame := by
    rw [hport]
    exact hplain
  obtain ⟨hopened, hgot⟩ := opened_of_sealed hconfig₂ hdec halgo₂ hplain₂ hiv
    (hreceived.trans hsealed) hslot₂ hok₂ hinv
  refine ⟨hsent, hgot, ?_⟩
  rw [hopened]
  exact restored hplain₂ hiv hinv

/-- The payload `ping`, encrypted, as it is received. -/
def sealedPing : PacketState (List UInt8) :=
  entering ((tcTransparent (pingKernel _) knownSender).exec pingPacket).frame (some .zero)

theorem transparent_round_trip_of_ping :
    (Transformed pingPacket ((tcTransparent (pingKernel _) knownSender).exec pingPacket) ∧
        ((tcTransparent (pingKernel _) knownSender).exec pingPacket).stats =
          (pingPacket.accounted .cryptoOk).stats) ∧
      (Transformed sealedPing ((tcTransparent (pingKernel _) knownReceiver).exec sealedPing) ∧
        ((tcTransparent (pingKernel _) knownReceiver).exec sealedPing).stats =
          (sealedPing.accounted .cryptoOk).stats) ∧
      Restored pingPacket.frame
        ((tcTransparent (pingKernel _) knownReceiver).exec sealedPing).frame := by
  have plain : IsPlain 7777 pingDatagram :=
    { toIsTransparent := pingDatagram_isTransparent
      nonempty := by decide
      small := by decide
      total := by decide }
  have received : sealedPing.frame =
      ((tcTransparent (pingKernel _) knownSender).exec pingPacket).frame := by
    rw [sealedPing, entering_frame]
  exact transparent_round_trip (pingKernel _) knownSender knownReceiver pingPacket sealedPing
    (knownConfig ebafActionEncrypt) (knownConfig ebafActionDecrypt) knownKey rfl rfl rfl rfl rfl
    rfl rfl plain rfl rfl (fun _ _ _ => rfl) (fun _ _ _ => rfl) pingKernel_inverts received

end Ebaf
