import Ebaf.FramedChecks

/-! # The program `tc_crypto`

The TC program checks what `xdp_crypto` checks, and more: it refuses fragments,
works for AES-CBC only, and insists on action byte 1 in the header.  Its end is
`framedCipher` again.
-/
namespace Ebaf
open ByteWindow EarlyExit

variable {Ctx : Type}

/-- The kfunc `tc_crypto` calls, once it knows the action is one of the two. -/
def tcDirection (config : EbafCryptoConfig) : Option Direction :=
  if config.action = ebafActionEncrypt then some .encrypt else some .decrypt

/-- `tc_crypto` -/
def tcCrypto (K : CryptoKernel Ctx) (e : Env Ctx) : PacketProg Ctx Unit := do
  statInc .packetsSeen
  let f ← packet
  Prog.exitIf (f.length < 14) (statReason .packetsBadEth)
  Prog.exitIf (ethProto f ≠ ethPIp) (statInc .packetsPassed)
  Prog.exitIf (f.length < ipOff + 20 ∨ ipIhl f < 5) (statReason .packetsBadIp)
  Prog.exitIf (f.length < ipOff + ipIhl f * 4) (statReason .packetsBadIp)
  Prog.exitIf (isFragment f) (statReason .packetsBadIp)
  Prog.exitIf (ipProtocol f ≠ ipprotoUdp) (statInc .packetsPassed)
  Prog.exitIf (f.length < udpOff f + 8) (statReason .packetsBadUdp)
  let config ← Prog.orExit e.config (statInc .packetsCryptoFail)
  -- an unsupported configuration passes every packet, whatever its port
  Prog.exitIf ((config.action ≠ ebafActionEncrypt ∧ config.action ≠ ebafActionDecrypt) ∨
    config.algo ≠ ebafAlgoCbcAes) (statInc .packetsPassed)
  Prog.exitIf (udpDest f ≠ config.udpPort.toNat) (statInc .packetsPassed)
  Prog.exitIf (udpLen f < 8) (statReason .packetsBadUdp)
  Prog.exitIf (f.length < payloadOff f + payloadLen f) (statReason .packetsBadUdp)
  Prog.exitIf (payloadLen f < EbafCryptoHeader.size) (statReason .packetsBadLength)
  Prog.exitIf (f.length < payloadOff f + EbafCryptoHeader.size) (statReason .packetsBadLength)
  let hdr := framedHeader f
  -- the action byte is 1 in both directions
  Prog.exitIf (hdr.magic ≠ ebafCryptoMagic ∨ hdr.version ≠ ebafCryptoVersion ∨ hdr.action ≠ 1)
    (statReason .packetsBadMagic)
  let bodyLen := payloadLen f - EbafCryptoHeader.size
  Prog.exitIf (hdr.payloadLen ≠ bodyLen) (statReason .packetsBadLength)
  Prog.exitIf (bodyLen = 0) (statReason .packetsBadLength)
  Prog.exitIf (bodyLen &&& (ebafCryptoBlockBytes - 1) ≠ 0) (statReason .packetsBadAlignment)
  framedCipher K e config (tcDirection config) f

/-- What `tc_crypto` requires of a frame and of the configuration. -/
structure TcAccepts (f : Frame) (config : EbafCryptoConfig) : Prop where
  framed : IsFramed config.udpPort f
  whole : ¬ isFragment f
  action : config.action = ebafActionEncrypt ∨ config.action = ebafActionDecrypt
  algo : config.algo = ebafAlgoCbcAes
  marked : (framedHeader f).action = 1
  aligned : framedBodyLen f % 16 = 0

/-- **`tc_crypto` hands a body to the cipher exactly when it accepts the
frame**, and does nothing else than refuse it otherwise. -/
theorem tcCrypto_spec (K : CryptoKernel Ctx) (e : Env Ctx) (s : PacketState Ctx) :
    FramedEnd K e (TcAccepts s.frame) tcDirection s ((tcCrypto K e).exec s) := by
  refine Prog.Ensures.exec (E := FramedEnd K e (TcAccepts s.frame) tcDirection s) ?_
  have hframed : ∀ config, TcAccepts s.frame config → IsFramed config.udpPort s.frame :=
    fun _ ha => ha.framed
  refine ensures_start.mpr (EndsFramed.ipHeader hframed fun ip => ?_)
  refine .check (fun h => .refuse_malformed rfl fun _ _ _ ha => ?_) fun whole => ?_
  · exact ha.accepted.whole h
  refine EndsFramed.udpHeader hframed fun udp => ?_
  refine .pointer (fun hc => .refuse_cryptoFail fun _ _ _ h => ?_) fun config hconfig => ?_
  · cases h.configured.symm.trans hc
  refine .check (fun h => .refuse_passed (not_handed hconfig fun ha => ?_)) fun supported => ?_
  · rcases h with h | h
    · exact ha.action.elim h.1 h.2
    · exact h ha.algo
  refine EndsFramed.payload hframed hconfig fun payload => ?_
  refine .check (fun h => .refuse_malformed rfl (not_handed hconfig fun ha => ?_)) fun marked => ?_
  · rcases h with hm | hv | hact
    · exact hm ha.framed.magic
    · exact hv ha.framed.version
    · exact hact ha.marked
  refine EndsFramed.body hframed fun body => ?_
  refine .check (fun h => .refuse_malformed rfl (not_handed hconfig fun ha => ?_)) fun aligned => ?_
  · exact h ((and_blockMask _).trans ha.aligned)
  have framed : IsFramed config.udpPort s.frame :=
    .ofChecks ip udp payload (not_not.mp fun h => marked (Or.inl h))
      (not_not.mp fun h => marked (Or.inr (Or.inl h))) body
  have accepted : TcAccepts s.frame config :=
    { framed := framed
      whole := whole
      action := by
        by_contra h
        exact supported (Or.inl (not_or.mp h))
      algo := not_not.mp fun h => supported (Or.inr h)
      marked := not_not.mp fun h => marked (Or.inr (Or.inr h))
      aligned := (and_blockMask _).symm.trans (not_not.mp aligned) }
  exact framedCipher_spec hconfig accepted framed.body_inside

end Ebaf
