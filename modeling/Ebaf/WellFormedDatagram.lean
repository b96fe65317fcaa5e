import Ebaf.TransparentEncrypt
import Ebaf.TransparentDecrypt
import Ebaf.TrailedPayload
import Mathlib.Order.Bounds.Basic

/-! # Well-formed datagrams stay well formed

In transparent mode four quantities change together: the length of the frame, the
two length fields, and the checksum of the IPv4 header, which is updated for the
first of them.  A run that falls through to its end has changed all of them by the
padding and the trailer, so that a well-formed datagram is one again
(`WellFormed`), whatever the trailer and the plaintext of the body say.
-/
namespace Ebaf
open ByteWindow EarlyExit

variable {Ctx : Type} {K : CryptoKernel Ctx} {e : Env Ctx} {s s' : PacketState Ctx} {f g : Frame}
  {port : UInt16} {c : Ctx} {iv : List UInt8} {config : EbafCryptoConfig}

/-- The 16-bit words of the IPv4 header. -/
def ipHeaderWords (f : Frame) : List Nat :=
  (List.range (ipIhl f * 2)).map fun i => be16 f (ipOff + 2 * i)

/-- A well-formed IPv4/UDP frame. -/
structure WellFormed (f : Frame) : Prop where
  proto : ethProto f = ethPIp
  udp : ipProtocol f = ipprotoUdp
  ihl : ipIhl f = 5
  whole : ¬ isFragment f
  lengths : ipTotLen f = 20 + udpLen f
  inside : 14 + ipTotLen f ≤ f.length
  checksum : OnesComplement.sum 65535 (ipHeaderWords f) = 65535

/-- The frame `g` is `f` with another total length, and the header checksum updated
for it. -/
structure Relengthed (f g : Frame) (total : Nat) : Prop where
  kept : ∀ i, 12 ≤ i → i < 34 → (i < ipOff + 2 ∨ ipOff + 4 ≤ i) →
    (i < ipOff + 10 ∨ ipOff + 12 ≤ i) → byteAt g i = byteAt f i
  totLen : ipTotLen g = total
  check : ipCheck g = OnesComplement.replace 65535 (ipCheck f) (ipTotLen f) total

namespace Relengthed
variable {total : Nat} (h : Relengthed f g total)
include h

theorem be16_eq {i : Nat} (hlo : 12 ≤ i) (hhi : i + 2 ≤ 34) (hlen : i + 2 ≤ 16 ∨ 18 ≤ i)
    (hcheck : i + 2 ≤ 24 ∨ 26 ≤ i) : be16 g i = be16 f i :=
  be16_congr
    (h.kept i hlo (by omega) (by rw [ipOff]; omega) (by rw [ipOff]; omega))
    (h.kept (i + 1) (by omega) (by omega) (by rw [ipOff]; omega) (by rw [ipOff]; omega))

theorem ipIhl : ipIhl g = ipIhl f := by
  have hbyte : byteAt g ipOff = byteAt f ipOff :=
    h.kept ipOff (by decide) (by decide) (by omega) (by omega)
  rw [Ebaf.ipIhl, Ebaf.ipIhl, hbyte]

/-- The words of the header, all but the two. -/
theorem sum_ipHeaderWords (hihl : Ebaf.ipIhl f = 5) :
    (ipHeaderWords g).sum + (ipTotLen f + ipCheck f) =
      (ipHeaderWords f).sum + (total + ipCheck g) := by
  have hwords : ∀ f' : Frame, ((List.range 10).map fun i => be16 f' (ipOff + 2 * i)).sum =
      be16 f' 14 + (be16 f' 16 + (be16 f' 18 + (be16 f' 20 + (be16 f' 22 + (be16 f' 24 +
        (be16 f' 26 + (be16 f' 28 + (be16 f' 30 + (be16 f' 32 + 0))))))))) := fun _ => rfl
  rw [ipHeaderWords, ipHeaderWords, h.ipIhl, hihl]
  show ((List.range 10).map _).sum + _ = ((List.range 10).map _).sum + _
  rw [hwords, hwords, ← h.totLen, h.be16_eq (i := 14) (by omega) (by omega) (by omega) (by omega),
    h.be16_eq (i := 18) (by omega) (by omega) (by omega) (by omega),
    h.be16_eq (i := 20) (by omega) (by omega) (by omega) (by omega),
    h.be16_eq (i := 22) (by omega) (by omega) (by omega) (by omega),
    h.be16_eq (i := 26) (by omega) (by omega) (by omega) (by omega),
    h.be16_eq (i := 28) (by omega) (by omega) (by omega) (by omega),
    h.be16_eq (i := 30) (by omega) (by omega) (by omega) (by omega),
    h.be16_eq (i := 32) (by omega) (by omega) (by omega) (by omega)]
  show _ + (be16 f 16 + be16 f 24) = _ + (be16 g 16 + be16 g 24)
  omega

/-- The first word of the header is not zero. -/
theorem ipHeaderWords_ne_zero (hihl : Ebaf.ipIhl f = 5) : ∃ w ∈ ipHeaderWords g, w ≠ 0 := by
  have hg : Ebaf.ipIhl g = 5 := h.ipIhl.trans hihl
  refine ⟨be16 g ipOff, List.mem_map.mpr ⟨0, ?_, rfl⟩, ?_⟩
  · rw [hg]
    decide
  · intro h0
    rw [be16] at h0
    rw [Ebaf.ipIhl] at hg
    omega

/-- **The checksum verifies again.** -/
theorem checksum (hf : WellFormed f) :
    OnesComplement.sum 65535 (ipHeaderWords g) = 65535 := by
  have hword : ∀ w ∈ ipHeaderWords g, w ≤ 65535 := by
    intro w hw
    obtain ⟨i, -, rfl⟩ := List.mem_map.mp hw
    have hlt : be16 g (ipOff + 2 * i) < 65536 := be16_lt
    omega
  have hcheck : ipCheck f < 65536 := be16_lt
  have hold : ipTotLen f < 65536 := be16_lt
  have hnew : ipTotLen g < 65536 := be16_lt
  rw [h.totLen] at hnew
  have hsum := h.sum_ipHeaderWords hf.ihl
  rw [h.check] at hsum
  exact OnesComplement.sum_of_replace hword (h.ipHeaderWords_ne_zero hf.ihl) (by omega) (by omega)
    (by omega) hsum hf.checksum

/-- **A relengthed frame is well formed** when the other lengths agree with the new
total length. -/
theorem wellFormed (hf : WellFormed f) (hlengths : total = 20 + udpLen g)
    (hinside : 14 + total ≤ g.length) : WellFormed g where
  proto := by
    rw [ethProto, h.be16_eq (by omega) (by omega) (by omega) (by omega)]
    exact hf.proto
  udp := by
    rw [ipProtocol, h.kept _ (by decide) (by decide) (by decide) (by decide)]
    exact hf.udp
  ihl := h.ipIhl.trans hf.ihl
  whole := by
    rw [isFragment, ipFragOff, ipOff, h.be16_eq (by omega) (by omega) (by omega) (by omega)]
    exact hf.whole
  lengths := h.totLen.trans hlengths
  inside := by
    rw [h.totLen]
    exact hinside
  checksum := h.checksum hf

end Relengthed

/-! ## The two transformations -/

theorem sealFrame_relengthed (hf : IsTransparent port f) :
    Relengthed f (sealFrame K c iv f) ((ipTotLen f + sealDelta f) % 65536) := by
  have hpay := hf.payloadOff
  have hudp := hf.udpOff
  have hdelta := sealDelta_le f
  have hroom := grown_room hf iv
  refine ⟨fun i _ hi hlen hcheck => ?_, ipTotLen_sealFrame hf, ?_⟩
  · rw [byteAt_sealFrame (Or.inl (by omega)), grownFrame,
      byteAt_relength_out hlen hcheck (Or.inl (by omega)), byteAt_withTrailer hf (by omega)]
  · have hip : ipOff + 2 + 2 ≤ payloadOff f := by rw [hpay, ipOff]; omega
    have hcheck : ipOff + 10 + 2 ≤ payloadOff f := by rw [hpay, ipOff]; omega
    rw [ipCheck, be16_sealFrame hcheck, grownFrame, ipCheck_relength hroom.1 hroom.2,
      be16_withTrailer hf hcheck, be16_withTrailer hf hip, lengthAfter_add (by omega)]
    rfl

theorem openFrame_relengthed (hf : IsTransparent port f) (ht : HasTrailer f) (hp : PadOk K c f) :
    Relengthed f (openFrame K c f) (ipTotLen f - openDelta K c f) := by
  have hpay := hf.payloadOff
  have hudp := hf.udpOff
  have hroom := cut_room hf ht hp
  refine ⟨fun i _ hi hlen hcheck => ?_, ipTotLen_openFrame hf ht hp, ?_⟩
  · rw [openFrame, byteAt_relength_out hlen hcheck (Or.inl (by omega)),
      byteAt_cutFrame hf ht hp (by omega)]
  · have hip : ipOff + 2 + 2 ≤ payloadOff f := by rw [hpay, ipOff]; omega
    have hcheck : ipOff + 10 + 2 ≤ payloadOff f := by rw [hpay, ipOff]; omega
    rw [ipCheck, openFrame, ipCheck_relength hroom.1 hroom.2, be16_cutFrame hf ht hp hcheck,
      be16_cutFrame hf ht hp hip, lengthAfter_sub (openDelta_lt hp)]
    rfl

theorem udpCheck_sealFrame (hf : IsTransparent port f) : udpCheck (sealFrame K c iv f) = 0 := by
  have hudp : udpOff f + 6 + 2 ≤ payloadOff f := by rw [hf.payloadOff, hf.udpOff]
  rw [udpCheck, (sealFrame_samePointers hf).udpOff, be16_sealFrame hudp]
  exact udpCheck_relength (grown_room hf iv).2

theorem udpCheck_openFrame (hf : IsTransparent port f) (ht : HasTrailer f) (hp : PadOk K c f) :
    udpCheck (openFrame K c f) = 0 := by
  rw [udpCheck, (openFrame_samePointers hf ht hp).udpOff]
  exact udpCheck_relength (cut_room hf ht hp).2

/-- The length of the padded payload is the least multiple of 16 above the length of
the payload. -/
theorem isLeast_sealedLen (f : Frame) : IsLeast {n | 16 ∣ n ∧ payloadLen f < n} (sealedLen f) := by
  have hpos := padLen_pos (payloadLen f)
  constructor
  · refine ⟨Nat.dvd_of_mod_eq_zero (padded_aligned _), ?_⟩
    rw [sealedLen]
    omega
  · rintro n ⟨hdvd, hlt⟩
    rw [sealedLen, padLen_eq]
    omega

/-! ## Completed runs -/

/-- The frame `g` is longer than `f` by `n` bytes, and its length fields are greater
by as much. -/
structure LongerBy (n : Nat) (f g : Frame) : Prop where
  length : g.length = f.length + n
  ipLen : ipTotLen g = ipTotLen f + n
  udpLen : udpLen g = udpLen f + n

/-- A well-formed frame `f` that is to be encrypted has become `g`. -/
structure SealedWell (pad : Nat) (f g : Frame) : Prop where
  wellFormed : WellFormed g
  udpCheck : udpCheck g = 0
  grown : LongerBy (pad + EbafCryptoHeader.size) f g
  small : ipTotLen g ≤ 1500
  body : IsLeast {n | 16 ∣ n ∧ payloadLen f < n} (tailHdr g).payloadLen

/-- A well-formed frame `f` that is to be decrypted has become `g`. -/
structure OpenedWell (pad : Nat) (f g : Frame) : Prop where
  wellFormed : WellFormed g
  udpCheck : udpCheck g = 0
  shrunk : LongerBy (pad + EbafCryptoHeader.size) g f
  header : 8 ≤ udpLen g

/-- **Encryption keeps a well-formed frame well formed.** -/
theorem sealFrame_sealedWell (hwf : WellFormed f) (hf : IsTransparent port f)
    (hsmall : payloadLen f ≤ ebafMaxTransparentPayload) (hiv : iv.length = ebafCryptoIvBytes) :
    SealedWell (padLen (payloadLen f)) f (sealFrame K c iv f) := by
  have hdelta := sealDelta_le f
  have hpayload := payload_delta f
  have hudp : udpLen (sealFrame K c iv f) = udpLen f + sealDelta f := udpLen_sealFrame hf hsmall
  have hold := hf.udpLen_eq
  have hlengths := hwf.lengths
  rw [ebafMaxTransparentPayload] at hsmall
  have htotal : (ipTotLen f + sealDelta f) % 65536 = ipTotLen f + sealDelta f :=
    Nat.mod_eq_of_lt (by omega)
  have hrelengthed : Relengthed f (sealFrame K c iv f) ((ipTotLen f + sealDelta f) % 65536) :=
    sealFrame_relengthed hf
  rw [htotal] at hrelengthed
  have hbody : openedLen (sealFrame K c iv f) = sealedLen f := by
    rw [openedLen, Ebaf.payloadLen, hudp]
    rw [EbafCryptoHeader.size] at hpayload ⊢
    omega
  have hpad := padLen_le (payloadLen f)
  refine ⟨?_, udpCheck_sealFrame hf, ⟨length_sealFrame, hrelengthed.totLen, hudp⟩, ?_, ?_⟩
  · refine hrelengthed.wellFormed hwf (by omega) ?_
    have := hwf.inside
    rw [length_sealFrame]
    omega
  · rw [hrelengthed.totLen]
    omega
  · rw [tailHdr, (sealFrame_samePointers hf).payloadOff, hbody, read_sealFrame hf hiv]
    have hnewHdr : (newHdr (sealedLen f) iv).payloadLen = sealedLen f :=
      Nat.mod_eq_of_lt (by rw [sealedLen]; omega)
    rw [hnewHdr]
    exact isLeast_sealedLen f

/-- **So does decryption.** -/
theorem openFrame_openedWell (hwf : WellFormed f) (hf : IsTransparent port f) (ht : HasTrailer f)
    (hp : PadOk K c f) : OpenedWell (padByte K c f) f (openFrame K c f) := by
  have hpayload := ht.payloadLen_eq
  have hold := hf.udpLen_eq
  have hbody := hp.body
  have hlengths := hwf.lengths
  have hinside := hwf.inside
  have hnew : udpLen (openFrame K c f) = udpLen f - openDelta K c f := udpLen_openFrame hf ht hp
  have hdelta : openDelta K c f = padByte K c f + EbafCryptoHeader.size := rfl
  have hrelengthed := openFrame_relengthed hf ht hp
  refine ⟨?_, udpCheck_openFrame hf ht hp, ⟨?_, ?_, ?_⟩, ?_⟩
  · refine hrelengthed.wellFormed hwf (by omega) ?_
    rw [length_openFrame]
    omega
  · rw [length_openFrame]
    omega
  · rw [hrelengthed.totLen]
    omega
  · rw [hnew]
    omega
  · rw [hnew]
    omega

/-- A run that falls through has accepted the frame. -/
theorem tcTransparent_ensures_accepts (K : CryptoKernel Ctx) (e : Env Ctx) (s : PacketState Ctx) :
    (tcTransparent K e).Ensures s
      (fun _ _ => ∃ config, e.config = some config ∧ TransparentAccepts s.frame config)
      (fun _ => True) := by
  refine .bind ((transparentParse_spec e s).mono (fun _ _ h => h) fun _ _ => trivial) ?_
  rintro ⟨config, f⟩ s' ⟨-, -, hc, ha⟩
  exact .of_forall (fun _ _ => ⟨config, hc, ha⟩) fun _ => trivial

/-- **Well-formed datagrams stay well formed.**  When `tc_transparent` completes its
transformation of a well-formed frame, whatever trailer and body it carries, the
result is well formed and its UDP checksum is 0; the frame, the total length and
the UDP length have all changed by a padding of 1 to 16 bytes and the trailer.
Encryption leaves an IPv4 packet of at most 1500 bytes, whose trailer gives the
least multiple of 16 above the length of the plaintext; decryption leaves the
headers in place. -/
theorem tcTransparent_keeps_wellFormed (K : CryptoKernel Ctx) (e : Env Ctx)
    (s s' : PacketState Ctx) (hwf : WellFormed s.frame) (hdone : tcTransparent K e s = .goOn () s') :
    ∃ config pad, e.config = some config ∧ 1 ≤ pad ∧ pad ≤ 16 ∧
      (config.action = ebafActionEncrypt ∧ SealedWell pad s.frame s'.frame ∨
        config.action = ebafActionDecrypt ∧ OpenedWell pad s.frame s'.frame) := by
  obtain ⟨config, hconfig, ha⟩ := (tcTransparent_ensures_accepts K e s).of_goOn hdone
  have hf : IsTransparent config.udpPort s.frame := ha.datagram
  rcases ha.action with henc | hdec
  · obtain ⟨c, ready, -, -, rfl⟩ := (tcTransparent_encrypt_ensures hconfig henc).of_goOn hdone
    refine ⟨config, _, hconfig, padLen_pos (payloadLen s.frame), padLen_le _, Or.inl ⟨henc, ?_⟩⟩
    exact sealFrame_sealedWell hwf hf ready.grows.small (length_fillIv _)
  · obtain ⟨c, ready, -, trims, -, -, rfl⟩ :=
      (tcTransparent_decrypt_ensures hconfig hdec).of_goOn hdone
    refine ⟨config, _, hconfig, trims.pad.pos, trims.pad.block, Or.inr ⟨hdec, ?_⟩⟩
    exact openFrame_openedWell hwf hf ready.trailer trims.pad

/-- The datagram with the payload `ping` is well formed, and so is what it becomes. -/
theorem tcTransparent_keeps_ping_wellFormed :
    ∃ config pad, knownSender.config = some config ∧ 1 ≤ pad ∧ pad ≤ 16 ∧
      (config.action = ebafActionEncrypt ∧ SealedWell pad pingPacket.frame
          ((tcTransparent (pingKernel _) knownSender).exec pingPacket).frame ∨
        config.action = ebafActionDecrypt ∧ OpenedWell pad pingPacket.frame
          ((tcTransparent (pingKernel _) knownSender).exec pingPacket).frame) := by
  refine tcTransparent_keeps_wellFormed (pingKernel _) knownSender pingPacket _ ?_ ?_
  · exact ⟨by decide, by decide, by decide, by decide, by decide, by decide, by decide⟩
  · exact Outcome.eq_goOn_state (by decide +kernel)

end Ebaf
