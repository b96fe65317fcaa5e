import Ebaf.CipherCalls

/-! # Fragments

What follows the IPv4 header of a later fragment is no UDP header but data, and
may be any bytes.  `tc_crypto` and `tc_transparent` refuse every fragment.
`xdp_crypto` does not look at the fragment field: where the data of a fragment
reads like a framed datagram to the configured port, it is transformed.
-/
namespace Ebaf
open ByteWindow EarlyExit

variable {Ctx : Type} {K : CryptoKernel Ctx} {e : Env Ctx} {s s' : PacketState Ctx} {f : Frame}
  {port : UInt16}

/-- `tc_crypto` hands fragments on as they came. -/
theorem tcCrypto_keeps_fragment (hfrag : isFragment s.frame) :
    ((tcCrypto K e).exec s).frame = s.frame := by
  have hend := tcCrypto_spec K e s
  cases hend with
  | refused _ hs => exact hs.frame
  | failed config c d hd _ _ => exact absurd hfrag hd.accepted.whole
  | transformed config c d hd _ _ => exact absurd hfrag hd.accepted.whole

/-- So does `tc_transparent`. -/
theorem tcTransparent_keeps_fragment (hfrag : isFragment s.frame) :
    ((tcTransparent K e).exec s).frame = s.frame := by
  refine (tcTransparent_refuses fun config _ ha => ?_).frame
  exact ha.datagram.whole hfrag

/-- Storing what is there changes nothing. -/
theorem store_checksum_of_zero (h : udpCheck f = 0) : store f (udpOff f + 6) [0, 0] = f := by
  have hload : load f (udpOff f + 6) 2 = [0, 0] := by
    refine ext_byteAt length_load fun i hi => ?_
    rw [length_load] at hi
    rw [byteAt_load hi]
    have hb : byteAt f (udpOff f + 6 + i) = byteAt [0, 0] (0 + i) := byteAt_of_be16 h hi
    rwa [Nat.zero_add] at hb
  rw [← hload]
  exact store_load_self

/-- A transformation leaves a frame as it is when the cipher does so with the body
and there is no checksum to clear. -/
theorem framedCrypt_eq_self_iff (hf : IsFramed port f) (d : Direction) (c : Ctx) :
    framedCrypt K d c f = f ↔
      K.crypt d c (framedIv f) (framedBody f) = framedBody f ∧ udpCheck f = 0 := by
  have hlen : (K.crypt d c (framedIv f) (framedBody f)).length = framedBodyLen f :=
    (K.length_crypt ..).trans framedBody_length
  constructor
  · intro h
    have hbody := framedBody_withBody hf hlen
    have hcheck := (framedCrypt_sameHeaders (K := K) (f := f) d c).udpOff
    rw [← framedCrypt, h] at hbody
    refine ⟨hbody.symm, ?_⟩
    have hudp := hf.udpHeader
    rw [udpCheck, ← h, hcheck, framedCrypt, withBody]
    exact be16_store_be16Bytes (n := 0) (by rw [length_store]; omega) (by decide)
  · rintro ⟨hbody, hcheck⟩
    rw [framedCrypt, hbody, withBody_framedBody]
    exact store_checksum_of_zero hcheck

/-- **When fragments are not transformed.**  No program changes a fragment exactly
when `xdp_crypto` does not hand its data to a cipher that succeeds, or that
cipher leaves the body as it is and the place of the UDP checksum is zero. -/
theorem fragments_kept_iff (K : CryptoKernel Ctx) (e : Env Ctx) (s : PacketState Ctx)
    (hfrag : isFragment s.frame) :
    (∀ p : PacketProgram, ((p.run K e).exec s).frame = s.frame) ↔
      ∀ config c d, Handed e (XdpAccepts s.frame) xdpDirection config c d →
        e.fails .cipher = false →
        K.crypt d c (framedIv s.frame) (framedBody s.frame) = framedBody s.frame ∧
          udpCheck s.frame = 0 := by
  have hend := xdpCrypto_spec K e s
  constructor
  · intro hkept config c d hd hcipher
    have hxdp : ((xdpCrypto K e).exec s).frame = s.frame := hkept (.framed .xdp)
    rw [hend.transformed_of_handed hd hcipher] at hxdp
    exact (framedCrypt_eq_self_iff hd.accepted.framed d c).mp hxdp
  · intro h p
    match p with
    | .framed .tc => exact tcCrypto_keeps_fragment hfrag
    | .transparent => exact tcTransparent_keeps_fragment hfrag
    | .framed .xdp =>
      show ((xdpCrypto K e).exec s).frame = s.frame
      generalize (xdpCrypto K e).exec s = s' at hend
      cases hend with
      | refused _ hs => exact hs.frame
      | failed config c d _ _ hs =>
        subst hs
        rfl
      | transformed config c d hd hcipher hs =>
        rw [hs]
        exact (framedCrypt_eq_self_iff hd.accepted.framed d c).mpr (h config c d hd hcipher)

/-- A datagram as a later fragment: the fragment offset is 1, and the checksum of
the IPv4 header is updated for it. -/
def asFragment (f : Frame) : Frame :=
  store (store f (ipOff + 6) (be16Bytes 1)) (ipOff + 10)
    (be16Bytes (OnesComplement.replace 65535 (ipCheck f) (ipFragOff f) 1))

/-- A fragment whose data reads like a framed block. -/
def blockFragment : PacketState (List UInt8) :=
  entering (asFragment (blockDatagram knownPlain)) (some .zero)

/-- The same block for another port. -/
def otherFragment : PacketState (List UInt8) :=
  entering (asFragment (datagram 7778 (framedPayload knownIv knownPlain))) (some .zero)

/-- No program changes the fragment that reads like a block for another port. -/
theorem fragments_kept_of_other_port :
    isFragment otherFragment.frame ∧ payloadLen otherFragment.frame = 40 ∧
      ∀ p : PacketProgram,
        ((p.run (knownKernel _) knownSender).exec otherFragment).frame = otherFragment.frame := by
  have hfrag : isFragment otherFragment.frame := by decide
  refine ⟨hfrag, by decide,
    (fragments_kept_iff (knownKernel _) knownSender otherFragment hfrag).mpr ?_⟩
  intro config c d hd _
  have hport := hd.accepted.framed.port
  obtain rfl := Option.some.inj hd.configured
  exact absurd hport (by decide)

/-- `xdp_crypto` encrypts the data of the fragment. -/
theorem xdpCrypto_encrypts_fragment :
    isFragment blockFragment.frame ∧
      ¬ ∀ p : PacketProgram,
        ((p.run (knownKernel _) knownSender).exec blockFragment).frame = blockFragment.frame := by
  refine ⟨by decide, fun h => ?_⟩
  have kept := h (.framed .xdp)
  have encrypted : load ((PacketProgram.run (knownKernel _) knownSender (.framed .xdp)).exec
      blockFragment).frame 66 16 = knownCipher := by
    decide +kernel
  rw [kept] at encrypted
  exact absurd encrypted (by decide)

end Ebaf
