import Ebaf.FramedChecks

/-! # The program `xdp_crypto`

The XDP program checks a frame line by line, then ends as `framedCipher` does.
`XdpAccepts` names what the checks amount to, and `xdpCrypto_spec` is the
program's specification: all a run can do is in `FramedEnd`.
-/
namespace Ebaf
open ByteWindow EarlyExit

variable {Ctx : Type}

/-- The kfunc `xdp_crypto` calls: with an action that is neither, `rc` is -1. -/
def xdpDirection (config : EbafCryptoConfig) : Option Direction :=
  if config.action = ebafActionEncrypt then some .encrypt
  else if config.action = ebafActionDecrypt then some .decrypt
  else none

/-- `xdp_crypto` -/
def xdpCrypto (K : CryptoKernel Ctx) (e : Env Ctx) : PacketProg Ctx Unit := do
  statInc .packetsSeen
  let f ← packet
  Prog.exitIf (f.length < 14) (statReason .packetsBadEth)
  Prog.exitIf (ethProto f ≠ ethPIp) (statInc .packetsPassed)
  Prog.exitIf (f.length < ipOff + 20 ∨ ipIhl f < 5) (statReason .packetsBadIp)
  Prog.exitIf (f.length < ipOff + ipIhl f * 4) (statReason .packetsBadIp)
  Prog.exitIf (ipProtocol f ≠ ipprotoUdp) (statInc .packetsPassed)
  Prog.exitIf (f.length < udpOff f + 8) (statReason .packetsBadUdp)
  let config ← Prog.orExit e.config (statInc .packetsCryptoFail)
  Prog.exitIf (udpDest f ≠ config.udpPort.toNat) (statInc .packetsPassed)
  Prog.exitIf (udpLen f < 8) (statReason .packetsBadUdp)
  Prog.exitIf (f.length < payloadOff f + payloadLen f) (statReason .packetsBadUdp)
  Prog.exitIf (payloadLen f < EbafCryptoHeader.size) (statReason .packetsBadLength)
  Prog.exitIf (f.length < payloadOff f + EbafCryptoHeader.size) (statReason .packetsBadLength)
  let hdr := framedHeader f
  Prog.exitIf (hdr.magic ≠ ebafCryptoMagic ∨ hdr.version ≠ ebafCryptoVersion)
    (statReason .packetsBadMagic)
  let dataLen := payloadLen f - EbafCryptoHeader.size
  Prog.exitIf (hdr.payloadLen ≠ dataLen) (statReason .packetsBadLength)
  Prog.exitIf (dataLen = 0) (statReason .packetsBadLength)
  Prog.exitIf (config.algo = ebafAlgoCbcAes ∧ dataLen &&& (ebafCryptoBlockBytes - 1) ≠ 0)
    (statReason .packetsBadAlignment)
  framedCipher K e config (xdpDirection config) f

/-- What `xdp_crypto` requires of a frame: whole blocks for AES-CBC. -/
structure XdpAccepts (f : Frame) (config : EbafCryptoConfig) : Prop where
  framed : IsFramed config.udpPort f
  aligned : config.algo = ebafAlgoCbcAes → framedBodyLen f % 16 = 0

/-- **`xdp_crypto` hands a body to the cipher exactly when it accepts the
frame**, and does nothing else than refuse it otherwise. -/
theorem xdpCrypto_spec (K : CryptoKernel Ctx) (e : Env Ctx) (s : PacketState Ctx) :
    FramedEnd K e (XdpAccepts s.frame) xdpDirection s ((xdpCrypto K e).exec s) := by
  refine Prog.Ensures.exec (E := FramedEnd K e (XdpAccepts s.frame) xdpDirection s) ?_
  have hframed : ∀ config, XdpAccepts s.frame config → IsFramed config.udpPort s.frame :=
    fun _ ha => ha.framed
  refine ensures_start.mpr (EndsFramed.ipHeader hframed fun ip => ?_)
  refine EndsFramed.udpHeader hframed fun udp => ?_
  refine .pointer (fun hc => .refuse_cryptoFail fun _ _ _ h => ?_) fun config hconfig => ?_
  · cases h.configured.symm.trans hc
  refine EndsFramed.payload hframed hconfig fun payload => ?_
  refine .check (fun h => .refuse_malformed rfl (not_handed hconfig fun ha => ?_)) fun marked => ?_
  · exact h.elim (fun hm => hm ha.framed.magic) fun hv => hv ha.framed.version
  refine EndsFramed.body hframed fun body => ?_
  refine .check (fun h => .refuse_malformed rfl (not_handed hconfig fun ha => ?_)) fun aligned => ?_
  · exact h.2 ((and_blockMask _).trans (ha.aligned h.1))
  have framed : IsFramed config.udpPort s.frame :=
    .ofChecks ip udp payload (not_not.mp fun h => marked (Or.inl h))
      (not_not.mp fun h => marked (Or.inr h)) body
  have blocks : config.algo = ebafAlgoCbcAes → framedBodyLen s.frame % 16 = 0 := by
    intro halgo
    rw [← and_blockMask]
    exact not_not.mp fun hn => aligned ⟨halgo, hn⟩
  exact framedCipher_spec hconfig ⟨framed, blocks⟩ framed.body_inside

end Ebaf
