import Ebaf.CipherOperands
import Ebaf.Events
import Ebaf.UpdateLengths

/-! # The program `tc_transparent`

In transparent mode the datagram carries no EBAF header.  Encryption pads the
payload to whole blocks and appends the header as a trailer, behind the body;
decryption finds the trailer at the end of the payload and, once the body is
plaintext, cuts padding and trailer off.  Both change the length of the packet,
and with it the length fields of the IP and UDP headers.

The program is translated in the pieces its source falls into: parsing
(`transparentParse`), growing the packet (`transparentGrow`) or reading the
trailer (`transparentTrailer`), the lines both directions share
(`transparentCheck`, `transparentCipher`), and cutting (`transparentTrim`).  The source keeps its
offsets in locals over all changes of the packet; here they are functions of
the frame `f` it parsed.
-/
namespace Ebaf
open ByteWindow EarlyExit

variable {Ctx : Type}

/-- A helper that changes the packet, or fails. -/
def onSkb (h : Frame → Option Frame) (k : PacketProg Ctx Unit) : PacketProg Ctx Unit :=
  Prog.tryModify (fun s => (h s.frame).map fun g => { s with frame := g }) k

/-- The pointers are derived from `data` again, and checked against the new
`data_end`. -/
def reparse (badEth badIp badUdp : PacketProg Ctx Unit) : PacketProg Ctx Frame := do
  let g ← packet
  Prog.exitIf (g.length < 14) badEth
  Prog.exitIf (g.length < ipOff + 20) badIp
  Prog.exitIf (g.length < udpOff g + 8) badUdp
  pure g

/-- Lines 208 to 277: the configuration and the frame, once they are checked. -/
def transparentParse (e : Env Ctx) : PacketProg Ctx (EbafCryptoConfig × Frame) := do
  statInc .packetsSeen
  let f ← packet
  Prog.exitIf (f.length < 14) (statReason .packetsBadEth)
  Prog.exitIf (ethProto f ≠ ethPIp) (statInc .packetsPassed)
  Prog.exitIf (f.length < ipOff + 20 ∨ ipIhl f ≠ 5) (statReason .packetsBadIp)
  Prog.exitIf (f.length < ipOff + ipIhl f * 4) (statReason .packetsBadIp)
  Prog.exitIf (isFragment f) (statReason .packetsBadIp)
  Prog.exitIf (ipProtocol f ≠ ipprotoUdp) (statInc .packetsPassed)
  Prog.exitIf (f.length < udpOff f + 8) (statReason .packetsBadUdp)
  let config ← Prog.orExit e.config (statInc .packetsCryptoFail)
  Prog.exitIf (config.algo ≠ ebafAlgoCbcAes ∨
    (config.action ≠ ebafActionEncrypt ∧ config.action ≠ ebafActionDecrypt)) (statInc .packetsPassed)
  Prog.exitIf (udpDest f ≠ config.udpPort.toNat) (statInc .packetsPassed)
  Prog.exitIf (udpLen f < 8) (statReason .packetsBadUdp)
  Prog.exitIf (f.length < payloadOff f + payloadLen f) (statReason .packetsBadUdp)
  pure (config, f)

/-- `pad_len` for a payload of `n` bytes. -/
def padLen (n : Nat) : Nat :=
  let padLen := ebafCryptoBlockBytes - (n &&& (ebafCryptoBlockBytes - 1))
  if padLen = 0 then ebafCryptoBlockBytes else padLen

/-- `body_len` on encryption: the length of the padded payload. -/
def sealedLen (f : Frame) : Nat := payloadLen f + padLen (payloadLen f)

/-- `delta` on encryption: the number of bytes added. -/
def sealDelta (f : Frame) : Nat := padLen (payloadLen f) + EbafCryptoHeader.size

/-- `fill_iv` -/
def fillIv (now : UInt64) : List UInt8 :=
  (List.range ebafCryptoIvBytes).map fun i => UInt8.ofNat (now.toNat >>> ((i &&& 7) * 8))

/-- `new_hdr` -/
def newHdr (bodyLen : Nat) (iv : List UInt8) : EbafCryptoHeader where
  magic := ebafCryptoMagic
  version := ebafCryptoVersion
  action := UInt8.ofNat ebafActionEncrypt.toNat
  payloadLen := bodyLen % 65536
  iv := iv

/-- What the two branches leave for the lines they share. -/
structure TransparentJob where
  bodyLen : Nat
  /-- The array `iv`, filled in by encryption. -/
  iv : List UInt8
  /-- `bpf_ntohs(tail_hdr.payload_len)` -/
  tailPayloadLen : Nat

/-- Round `i` of the padding loop; from the round that breaks on, every round
does. -/
def storePad (e : Env Ctx) (off padLen i : Nat) : PacketProg Ctx Unit :=
  if padLen ≤ i then pure ()
  else onSkb (bpfSkbStoreBytes e (.padStore i) (off + i) [UInt8.ofNat padLen])
    (statReason .packetsBadUdp)

/-- Lines 280 to 378: the packet grows, and padding, trailer and length fields
are written. -/
def transparentGrow (e : Env Ctx) (f : Frame) : PacketProg Ctx TransparentJob := do
  Prog.exitIf (payloadLen f = 0 ∨ ebafMaxTransparentPayload < payloadLen f)
    (statReason .packetsBadLength)
  let bodyLen := sealedLen f
  let delta := sealDelta f
  -- from here on the packet is changed, and no context has been looked up yet
  onSkb (fun g => bpfSkbChangeTail e g (g.length + delta)) (statReason .packetsBadLength)
  let g ← reparse (statReason .packetsBadEth) (statReason .packetsBadIp) (statReason .packetsBadUdp)
  Prog.exitIf (g.length < payloadOff g + bodyLen + EbafCryptoHeader.size)
    (statReason .packetsBadLength)
  Prog.forUpTo (storePad e (payloadOff f + payloadLen f) (padLen (payloadLen f))) 0
    ebafCryptoBlockBytes
  let iv := fillIv e.ivClock
  onSkb (bpfSkbStoreBytes e .trailerStore (payloadOff f + bodyLen) (newHdr bodyLen iv).bytes)
    (statReason .packetsBadMagic)
  -- the checks repeated from here on return without counting
  let g ← reparse (pure ()) (pure ()) (pure ())
  Prog.exitIf (g.length < payloadOff g + bodyLen + EbafCryptoHeader.size) (pure ())
  let ok ← Prog.attempt PacketState.frame (fun s g => { s with frame := g })
    (updateLengths e ipOff (udpOff f) delta true)
  Prog.exitIf (ok = false) (statReason .packetsBadIp)
  let g ← reparse (pure ()) (pure ()) (pure ())
  Prog.exitIf (g.length < payloadOff g + bodyLen + EbafCryptoHeader.size) (pure ())
  pure ⟨bodyLen, iv, 0⟩

/-- `body_len` on decryption: what is left of the payload without the trailer. -/
def openedLen (f : Frame) : Nat := payloadLen f - EbafCryptoHeader.size

/-- Lines 380 to 401: the trailer is read. -/
def transparentTrailer (e : Env Ctx) (f : Frame) : PacketProg Ctx TransparentJob := do
  Prog.exitIf (payloadLen f < EbafCryptoHeader.size) (statReason .packetsBadLength)
  let bodyLen := openedLen f
  Prog.exitIf (f.length < payloadOff f + bodyLen + EbafCryptoHeader.size)
    (statReason .packetsBadLength)
  let bytes ← Prog.orExit
    (bpfSkbLoadBytes e .trailerLoad f (payloadOff f + bodyLen) EbafCryptoHeader.size)
    (statInc .packetsCryptoFail)
  let tailHdr := EbafCryptoHeader.read bytes 0
  Prog.exitIf (tailHdr.magic ≠ ebafCryptoMagic ∨ tailHdr.version ≠ ebafCryptoVersion)
    (statReason .packetsBadMagic)
  pure ⟨bodyLen, [], tailHdr.payloadLen⟩

/-- `emit_event` -/
def emitEvent (e : Env Ctx) (config : EbafCryptoConfig) (payloadLen dataLen bodyOff : Nat) :
    PacketProg Ctx Unit := do
  let g ← packet
  let byte := fun i =>
    if dataLen ≤ i then none
    else (bpfSkbLoadBytes e (.sampleLoad i) g (bodyOff + i) 1).map fun bs => byteAt bs 0
  submitEvent e (cryptoEvent e config g (udpOff g) payloadLen dataLen byte)

/-- How `tc_transparent` counts a packet for which a dynptr kfunc fails. -/
def transparentFailed : HelperCall → Disposition
  | .adjustBody => .malformed .packetsBadLength rfl
  | .adjustIv => .malformed .packetsBadMagic rfl
  | _ => .malformed .packetsBadAlignment rfl

/-- The kfunc `tc_transparent` calls. -/
def transparentDirection (config : EbafCryptoConfig) : Direction :=
  if config.action = ebafActionEncrypt then .encrypt else .decrypt

/-- Lines 404 to 413: whole blocks, and on decryption the length the trailer
gives. -/
def transparentCheck (config : EbafCryptoConfig) (job : TransparentJob) : PacketProg Ctx Unit := do
  Prog.exitIf (job.bodyLen = 0 ∨ job.bodyLen &&& (ebafCryptoBlockBytes - 1) ≠ 0)
    (statReason .packetsBadLength)
  Prog.exitIf (config.action = ebafActionDecrypt ∧ job.tailPayloadLen ≠ job.bodyLen)
    (statReason .packetsBadLength)

/-- Lines 415 to 477: the body is handed to the cipher. -/
def transparentCipher (K : CryptoKernel Ctx) (e : Env Ctx) (config : EbafCryptoConfig) (f : Frame)
    (job : TransparentJob) : PacketProg Ctx Unit := do
  let ivOff := payloadOff f + job.bodyLen + ebafCryptoIvOffset
  let (cryptoCtx, body, iv) ← cipherOperands e (payloadOff f) job.bodyLen ivOff transparentFailed
  let ok ← bpfCrypto K e (transparentDirection config) cryptoCtx body iv
  -- `stat_bad` counts the failure under `packets_malformed`, too
  Prog.exitIf (ok = false) (statReason .packetsCryptoFail)
  -- the kfunc has used the IV in the trailer as its chaining buffer
  if config.action = ebafActionEncrypt then
    onSkb (bpfSkbStoreBytes e .ivStore ivOff job.iv) (statReason .packetsBadMagic)
  statInc .packetsCryptoOk
  let g ← reparse (pure ()) (pure ()) (pure ())
  Prog.exitIf (g.length < payloadOff g + job.bodyLen) (pure ())
  emitEvent e config (payloadLen f) job.bodyLen (payloadOff f)

/-- Lines 480 to 516: padding and trailer are cut off. -/
def transparentTrim (e : Env Ctx) (f : Frame) (bodyLen : Nat) : PacketProg Ctx Unit := do
  -- the packet is counted as transformed by now, and its body is plaintext
  let g ← packet
  let padByte ← Prog.orExit (bpfSkbLoadBytes e .padLoad g (payloadOff f + bodyLen - 1) 1)
    (statInc .packetsCryptoFail)
  let padLen := (byteAt padByte 0).toNat
  Prog.exitIf (padLen < 1 ∨ ebafCryptoBlockBytes < padLen ∨ bodyLen < padLen)
    (statReason .packetsBadLength)
  let delta := padLen + EbafCryptoHeader.size
  onSkb (fun g => bpfSkbChangeTail e g (g.length - delta)) (statInc .packetsCryptoFail)
  -- the tail is gone before the length fields are looked at
  let _ ← reparse (pure ()) (pure ()) (pure ())
  let ok ← Prog.attempt PacketState.frame (fun s g => { s with frame := g })
    (updateLengths e ipOff (udpOff f) delta false)
  Prog.exitIf (ok = false) (statInc .packetsCryptoFail)

/-- `tc_transparent` -/
def tcTransparent (K : CryptoKernel Ctx) (e : Env Ctx) : PacketProg Ctx Unit := do
  let (config, f) ← transparentParse e
  let job ← if config.action = ebafActionEncrypt then transparentGrow e f else transparentTrailer e f
  transparentCheck config job
  transparentCipher K e config f job
  if config.action = ebafActionDecrypt then
    transparentTrim e f job.bodyLen

end Ebaf
