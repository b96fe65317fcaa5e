import Ebaf.CipherCalls

/-! # Where a transformation may reach

No program reads the total length of the IPv4 header to bound what it transforms:
a transformed UDP datagram lies inside the received frame, and whether it lies
inside the IPv4 datagram depends on the sender.  Encryption in transparent mode
adds what it appends to the total length, in 16 bits.
-/
namespace Ebaf
open ByteWindow EarlyExit

variable {Ctx : Type} {K : CryptoKernel Ctx} {e : Env Ctx} {s s' : PacketState Ctx} {f : Frame}
  {port : UInt16} {config : EbafCryptoConfig}

/-- The UDP datagram, from its header to the end its length gives, lies inside the
frame. -/
def UdpInside (f : Frame) : Prop := udpOff f + udpLen f ≤ f.length

/-- The same inside the IPv4 datagram. -/
def UdpInsideIp (f : Frame) : Prop := ipIhl f * 4 + udpLen f ≤ ipTotLen f

/-! ## Transformed datagrams -/

theorem udpInside_of_payload (hlen : 8 ≤ udpLen f) (hin : payloadOff f + payloadLen f ≤ f.length) :
    UdpInside f := by
  rw [payloadOff, payloadLen] at hin
  rw [UdpInside]
  omega

/-- The packet has been transformed: the frame is not what it was, or a body has been
handed to the cipher. -/
def Transforms (s s' : PacketState Ctx) : Prop :=
  s'.frame ≠ s.frame ∨ s'.cipherCalls ≠ s.cipherCalls

/-- A refused packet has not been transformed. -/
theorem PacketState.Refused.not_transforms (h : s.Refused s') : ¬ Transforms s s' := by
  have hcalls : s'.cipherCalls = s.cipherCalls ++ [] := h.addsCalls
  rintro (hframe | hchanged)
  · exact hframe h.frame
  · exact hchanged (hcalls.trans (List.append_nil _))

/-- A framed program transforms a packet only when its UDP datagram lies in it. -/
theorem FramedProgram.inside_of_transforms (p : FramedProgram)
    (h : Transforms s ((p.run K e).exec s)) : UdpInside s.frame := by
  have inside : ∀ {config c d}, Handed e (p.Accepts s.frame) p.direction config c d →
      UdpInside s.frame := by
    intro config c d hd
    have framed : IsFramed config.udpPort s.frame := Accepts.framed hd.accepted
    exact udpInside_of_payload framed.udpLen framed.inside
  have hend := p.spec K e s
  generalize (p.run K e).exec s = s' at h hend
  cases hend with
  | refused _ hs => exact absurd h hs.not_transforms
  | failed _ _ _ hd _ _ => exact inside hd
  | transformed _ _ _ hd _ _ => exact inside hd

/-- So does `tc_transparent`. -/
theorem tcTransparent_inside_of_transforms (h : Transforms s ((tcTransparent K e).exec s)) :
    UdpInside s.frame := by
  by_cases ha : ∃ config, e.config = some config ∧ TransparentAccepts s.frame config
  · obtain ⟨config, -, ha⟩ := ha
    exact udpInside_of_payload ha.datagram.udpLen ha.datagram.inside
  · have hs : s.Refused ((tcTransparent K e).exec s) :=
      tcTransparent_refuses fun config hc h => ha ⟨config, hc, h⟩
    exact absurd h hs.not_transforms

/-! ## Grown datagrams -/

/-- Where the helpers succeed, encryption grows the packet by `sealDelta` or not at
all, and the total length with it. -/
theorem tcTransparent_grows (hconfig : e.config = some config)
    (henc : config.action = ebafActionEncrypt) (hcalls : GrowCallsOk e s.frame)
    (hiv : e.fails .ivStore = false) :
    ((tcTransparent K e).exec s).frame = s.frame ∨
      ((tcTransparent K e).exec s).frame.length = s.frame.length + sealDelta s.frame ∧
        ipTotLen ((tcTransparent K e).exec s).frame =
          (ipTotLen s.frame + sealDelta s.frame) % 65536 := by
  let grown (g : Frame) : Prop := g = s.frame ∨
    g.length = s.frame.length + sealDelta s.frame ∧
      ipTotLen g = (ipTotLen s.frame + sealDelta s.frame) % 65536
  by_cases ha : TransparentAccepts s.frame config
  · have hf : IsTransparent config.udpPort s.frame := ha.datagram
    refine Prog.Ensures.exec (E := fun s' => grown s'.frame)
      ((tcTransparent_encrypt_ensures hconfig henc).mono ?_ ?_)
    · rintro _ s' ⟨c, -, -, -, rfl⟩
      exact Or.inr ⟨length_sealFrame, ipTotLen_sealFrame hf⟩
    · rintro s' ⟨-, hstops⟩
      rcases hstops hcalls hiv with hsame | ⟨-, hgrown⟩
      · exact Or.inl hsame
      · refine Or.inr ?_
        rw [hgrown]
        exact ⟨length_grownFrame, ipTotLen_grownFrame hf⟩
  · have hs : s.Refused ((tcTransparent K e).exec s) := by
      refine tcTransparent_refuses fun config' hc h => ha ?_
      rwa [← Option.some.inj (hconfig.symm.trans hc)] at h
    exact Or.inl hs.frame

/-- **Transformations stay inside the frame.**  On every frame, whatever the kernel
answers: when a program transforms a packet, the UDP datagram lies inside the frame.  When
encryption in transparent mode, with helpers that succeed, grows the frame, the
total length grows by as much wherever 16 bits have room for it. -/
theorem transformation_bounds (K : CryptoKernel Ctx) (e : Env Ctx) (s : PacketState Ctx) :
    (∀ p : PacketProgram, Transforms s ((p.run K e).exec s) → UdpInside s.frame) ∧
      ∀ config, e.config = some config → config.action = ebafActionEncrypt →
        GrowCallsOk e s.frame → e.fails .ivStore = false →
        ∀ delta, 0 < delta →
          ((tcTransparent K e).exec s).frame.length = s.frame.length + delta →
          ipTotLen s.frame + delta < 65536 →
          ipTotLen ((tcTransparent K e).exec s).frame = ipTotLen s.frame + delta := by
  constructor
  · intro p h
    cases p with
    | framed p => exact p.inside_of_transforms h
    | transparent => exact tcTransparent_inside_of_transforms h
  · intro config hconfig henc hcalls hiv delta hpos hlen hfits
    rcases tcTransparent_grows (K := K) hconfig henc hcalls hiv with hsame | ⟨hgrown, htotal⟩
    · rw [hsame] at hlen
      omega
    · have hdelta : sealDelta s.frame = delta := by omega
      rw [htotal, hdelta, Nat.mod_eq_of_lt hfits]

/-- A sealed datagram is inside the frame, and its total length has grown by its 36 bytes. -/
theorem transformation_bounds_of_ping :
    UdpInside pingPacket.frame ∧
      ipTotLen ((tcTransparent (pingKernel _) knownSender).exec pingPacket).frame =
        ipTotLen pingPacket.frame + 36 := by
  obtain ⟨hinside, hgrows⟩ := transformation_bounds (pingKernel _) knownSender pingPacket
  have hlength : ((tcTransparent (pingKernel _) knownSender).exec pingPacket).frame.length =
      pingPacket.frame.length + 36 := by
    decide +kernel
  have hcalls : GrowCallsOk knownSender pingPacket.frame :=
    ⟨fun _ _ => rfl, rfl, ⟨rfl, rfl, rfl, rfl, rfl⟩, rfl⟩
  refine ⟨hinside .transparent (Or.inl fun hsame => ?_),
    hgrows (knownConfig ebafActionEncrypt) rfl rfl hcalls rfl 36 (by decide) hlength (by decide)⟩
  have hkept : ((tcTransparent (pingKernel _) knownSender).exec pingPacket).frame =
      pingPacket.frame := hsame
  rw [hkept] at hlength
  omega

/-- A frame with another total length, and the checksum updated for it. -/
def withTotLen (n : Nat) (f : Frame) : Frame :=
  store (store f (ipOff + 2) (be16Bytes n)) (ipOff + 10)
    (be16Bytes (OnesComplement.replace 65535 (ipCheck f) (ipTotLen f) n))

/-- A framed block whose IPv4 datagram ends with its header. -/
def shortBlock : PacketState (List UInt8) :=
  entering (withTotLen 20 (blockDatagram knownPlain)) (some .zero)

/-- A payload whose IPv4 header claims all of the 16 bits. -/
def fullPing : PacketState (List UInt8) :=
  entering (withTotLen 65535 pingDatagram) (some .zero)

/-- A sender for which the trailer cannot be written. -/
def trailerlessSender : Env (List UInt8) :=
  { knownSender with fails := fun call => call = .trailerStore }

/-- Where a frame has grown, its total length has grown by as much. -/
def GrowsTotal (f g : Frame) : Prop :=
  ∀ delta, 0 < delta → g.length = f.length + delta → ipTotLen g = ipTotLen f + delta

theorem not_growsTotal {g : Frame} (delta total : Nat) (hpos : 0 < delta)
    (hg : (g.length, ipTotLen g) = (f.length + delta, total))
    (hne : total ≠ ipTotLen f + delta) : ¬ GrowsTotal f g := by
  intro h
  obtain ⟨hlen, htotal⟩ := Prod.mk.inj hg
  exact hne (htotal.symm.trans (h delta hpos hlen))

/-- `tc_crypto` encrypts the block behind it; `tc_transparent` grows a packet whose
total length wraps around, and one whose total length it does not reach. -/
theorem transforms_outside_ip :
    (¬ ∀ p : PacketProgram,
      Transforms shortBlock ((p.run (knownKernel _) knownSender).exec shortBlock) →
        UdpInsideIp shortBlock.frame) ∧
      ¬ GrowsTotal fullPing.frame
        ((tcTransparent (pingKernel _) knownSender).exec fullPing).frame ∧
      ¬ GrowsTotal pingPacket.frame
        ((tcTransparent (pingKernel _) trailerlessSender).exec pingPacket).frame := by
  refine ⟨fun h => ?_, ?_, ?_⟩
  · have encrypted : load ((PacketProgram.run (knownKernel _) knownSender (.framed .tc)).exec
        shortBlock).frame 66 16 = knownCipher := by
      decide +kernel
    have inside : UdpInsideIp shortBlock.frame := by
      refine h (.framed .tc) (Or.inl fun kept => ?_)
      rw [kept] at encrypted
      exact absurd encrypted (by decide)
    exact absurd inside (by unfold UdpInsideIp; decide)
  · refine not_growsTotal 36 35 (by decide) ?_ (by decide)
    decide +kernel
  · refine not_growsTotal 36 32 (by decide) ?_ (by decide)
    decide +kernel

end Ebaf
