import Ebaf.FramedCipher

/-! # The checks the framed programs share

`xdp_crypto` and `tc_crypto` make the same checks in four groups: the Ethernet
and IPv4 headers, the UDP header, the payload, and the body.  A packet that fails
one of them is refused, because it is no framed datagram; one that passes goes
on with what the group has established.
-/
namespace Ebaf
open ByteWindow EarlyExit

/-- The Ethernet and IPv4 headers are those of a framed datagram. -/
structure HasIpHeader (f : Frame) : Prop where
  eth : 14 ≤ f.length
  proto : ethProto f = ethPIp
  ip : ipOff + 20 ≤ f.length
  ihl : 5 ≤ ipIhl f
  options : udpOff f ≤ f.length

/-- So is the UDP header. -/
structure HasUdpHeader (f : Frame) : Prop where
  udp : ipProtocol f = ipprotoUdp
  udpHeader : udpOff f + 8 ≤ f.length

/-- The payload lies in the frame and has room for an EBAF header. -/
structure HasPayload (port : UInt16) (f : Frame) : Prop where
  port : udpDest f = port.toNat
  udpLen : 8 ≤ udpLen f
  inside : payloadOff f + payloadLen f ≤ f.length
  header : EbafCryptoHeader.size ≤ payloadLen f

/-- The body is not empty and as long as the header says. -/
structure HasBody (f : Frame) : Prop where
  length : (framedHeader f).payloadLen = framedBodyLen f
  body : framedBodyLen f ≠ 0

variable {f : Frame} {port : UInt16}

/-- The groups together. -/
theorem IsFramed.ofChecks (ip : HasIpHeader f) (udp : HasUdpHeader f) (payload : HasPayload port f)
    (magic : (framedHeader f).magic = ebafCryptoMagic)
    (version : (framedHeader f).version = ebafCryptoVersion) (body : HasBody f) :
    IsFramed port f :=
  { ip, udp, payload, body with magic, version }

variable {Ctx : Type} {K : CryptoKernel Ctx} {e : Env Ctx} {accepts : EbafCryptoConfig → Prop}
  {dir : EbafCryptoConfig → Option Direction} {s : PacketState Ctx} {config : EbafCryptoConfig}
  {k : PacketProg Ctx Unit}

/-- Every run from the packet counted as seen ends as a framed program does. -/
def EndsFramed (K : CryptoKernel Ctx) (e : Env Ctx) (accepts : EbafCryptoConfig → Prop)
    (dir : EbafCryptoConfig → Option Direction) (s : PacketState Ctx) (p : PacketProg Ctx Unit) :
    Prop :=
  p.Ensures s.seen (fun _ => FramedEnd K e accepts dir s) (FramedEnd K e accepts dir s)

/-- A packet the configuration does not accept is not handed over. -/
theorem not_handed (hconfig : e.config = some config) (hn : ¬ accepts config) :
    ∀ config' c d, ¬ Handed e accepts dir config' c d := by
  intro config' c d h
  obtain rfl := Option.some.inj (hconfig.symm.trans h.configured)
  exact hn h.accepted

section Groups
variable (hframed : ∀ config, accepts config → IsFramed config.udpPort s.frame)
include hframed

variable (e dir) in
/-- Nor is one that is not framed. -/
theorem not_handed_of_not_framed (hn : ∀ port, ¬ IsFramed port s.frame) :
    ∀ config c d, ¬ Handed e accepts dir config c d :=
  fun config _ _ h => hn config.udpPort (hframed config h.accepted)

theorem EndsFramed.ipHeader (hgo : HasIpHeader s.frame → EndsFramed K e accepts dir s k) :
    EndsFramed K e accepts dir s (do
      Prog.exitIf (s.frame.length < 14) (statReason .packetsBadEth)
      Prog.exitIf (ethProto s.frame ≠ ethPIp) (statInc .packetsPassed)
      Prog.exitIf (s.frame.length < ipOff + 20 ∨ ipIhl s.frame < 5) (statReason .packetsBadIp)
      Prog.exitIf (s.frame.length < ipOff + ipIhl s.frame * 4) (statReason .packetsBadIp)
      k) := by
  have refused := not_handed_of_not_framed e dir hframed
  refine .check (fun h => .refuse_malformed rfl (refused fun _ hf => ?_)) fun eth => ?_
  · exact absurd hf.eth (by omega)
  refine .check (fun h => .refuse_passed (refused fun _ hf => h hf.proto)) fun proto => ?_
  refine .check (fun h => .refuse_malformed rfl (refused fun _ hf => ?_)) fun ip => ?_
  · exact h.elim (Nat.not_lt.mpr hf.ip) (Nat.not_lt.mpr hf.ihl)
  refine .check (fun h => .refuse_malformed rfl (refused fun _ hf => ?_)) fun options => ?_
  · exact absurd hf.options (Nat.not_le.mpr h)
  exact hgo ⟨by omega, not_not.mp proto, by omega, by omega, Nat.not_lt.mp options⟩

theorem EndsFramed.udpHeader (hgo : HasUdpHeader s.frame → EndsFramed K e accepts dir s k) :
    EndsFramed K e accepts dir s (do
      Prog.exitIf (ipProtocol s.frame ≠ ipprotoUdp) (statInc .packetsPassed)
      Prog.exitIf (s.frame.length < udpOff s.frame + 8) (statReason .packetsBadUdp)
      k) := by
  have refused := not_handed_of_not_framed e dir hframed
  refine .check (fun h => .refuse_passed (refused fun _ hf => h hf.udp)) fun udp => ?_
  refine .check (fun h => .refuse_malformed rfl (refused fun _ hf => ?_)) fun udpHeader => ?_
  · exact absurd hf.udpHeader (Nat.not_le.mpr h)
  exact hgo ⟨not_not.mp udp, Nat.not_lt.mp udpHeader⟩

theorem EndsFramed.payload (hconfig : e.config = some config)
    (hgo : HasPayload config.udpPort s.frame → EndsFramed K e accepts dir s k) :
    EndsFramed K e accepts dir s (do
      Prog.exitIf (udpDest s.frame ≠ config.udpPort.toNat) (statInc .packetsPassed)
      Prog.exitIf (udpLen s.frame < 8) (statReason .packetsBadUdp)
      Prog.exitIf (s.frame.length < payloadOff s.frame + payloadLen s.frame)
        (statReason .packetsBadUdp)
      Prog.exitIf (payloadLen s.frame < EbafCryptoHeader.size) (statReason .packetsBadLength)
      Prog.exitIf (s.frame.length < payloadOff s.frame + EbafCryptoHeader.size)
        (statReason .packetsBadLength)
      k) := by
  have refused := not_handed_of_not_framed e dir hframed
  refine .check (fun h => .refuse_passed (not_handed hconfig fun ha => ?_)) fun port => ?_
  · exact h (hframed config ha).port
  refine .check (fun h => .refuse_malformed rfl (refused fun _ hf => ?_)) fun udpLen => ?_
  · exact absurd hf.udpLen (Nat.not_le.mpr h)
  refine .check (fun h => .refuse_malformed rfl (refused fun _ hf => ?_)) fun inside => ?_
  · exact absurd hf.inside (Nat.not_le.mpr h)
  refine .check (fun h => .refuse_malformed rfl (refused fun _ hf => ?_)) fun header => ?_
  · exact absurd hf.header (Nat.not_le.mpr h)
  refine .check (fun h => .refuse_malformed rfl (refused fun _ hf => ?_)) fun _ => ?_
  · have := hf.inside
    have := hf.header
    omega
  exact hgo ⟨not_not.mp port, Nat.not_lt.mp udpLen, Nat.not_lt.mp inside, Nat.not_lt.mp header⟩

theorem EndsFramed.body (hgo : HasBody s.frame → EndsFramed K e accepts dir s k) :
    EndsFramed K e accepts dir s (do
      Prog.exitIf ((framedHeader s.frame).payloadLen ≠ payloadLen s.frame - EbafCryptoHeader.size)
        (statReason .packetsBadLength)
      Prog.exitIf (payloadLen s.frame - EbafCryptoHeader.size = 0) (statReason .packetsBadLength)
      k) := by
  have refused := not_handed_of_not_framed e dir hframed
  refine .check (fun h => .refuse_malformed rfl (refused fun _ hf => h hf.length)) fun length => ?_
  refine .check (fun h => .refuse_malformed rfl (refused fun _ hf => hf.body h)) fun body => ?_
  exact hgo ⟨not_not.mp length, body⟩

end Groups

end Ebaf
