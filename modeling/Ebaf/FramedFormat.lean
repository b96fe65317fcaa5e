import Ebaf.CipherCalls
import Ebaf.TrailedPayload

/-! # The framed format

In framed mode the UDP payload begins with the marker `EBAF`, a version, an
action, the length of the body and an IV; the body is all that follows.
`EbafFormat` says this of a byte string, apart from the action, and
`FramedFormat` with it.  For datagrams that reach their checks of the payload, both
framed programs decide this format: `tc_crypto` for the action byte 1 only, and
`xdp_crypto` whatever the action byte says.
-/
namespace Ebaf
open ByteWindow EarlyExit

variable {Ctx : Type} {P : List UInt8} {f : Frame} {port : UInt16}

/-- The marker, `EBAF` in ASCII. -/
def ebafMarker : List UInt8 := [0x45, 0x42, 0x41, 0x46]

/-- The byte that gives the action. -/
def actionByte (P : List UInt8) : UInt8 := byteAt P 5

/-- A payload in the framed format, apart from its action. -/
structure EbafFormat (P : List UInt8) : Prop where
  header : EbafCryptoHeader.size ≤ P.length
  marker : load P 0 4 = ebafMarker
  version : byteAt P 4 = 1
  length : be16 P 6 = P.length - EbafCryptoHeader.size
  body : P.length - EbafCryptoHeader.size ≠ 0
  aligned : (P.length - EbafCryptoHeader.size) % 16 = 0

/-- **The documented format**: the action is to encrypt or to decrypt. -/
structure FramedFormat (P : List UInt8) : Prop extends EbafFormat P where
  action : actionByte P = 1 ∨ actionByte P = 2

/-- An unfragmented IPv4/UDP datagram to a port that lies in the frame; the IPv4
header may have options. -/
structure CarriesUdp (port : UInt16) (f : Frame) : Prop where
  proto : ethProto f = ethPIp
  ihl : 5 ≤ ipIhl f
  whole : ¬ isFragment f
  udp : ipProtocol f = ipprotoUdp
  port : udpDest f = port.toNat
  inside : payloadOff f + payloadLen f ≤ f.length

/-- The payload of a UDP datagram. -/
def udpPayload (f : Frame) : List UInt8 := load f (payloadOff f) (payloadLen f)

@[simp] theorem length_udpPayload : (udpPayload f).length = payloadLen f := length_load

/-! ## The header as bytes -/

/-- The magic number is the marker, read in network order. -/
theorem be32_eq_magic_iff : be32 P 0 = ebafCryptoMagic ↔ load P 0 4 = ebafMarker := by
  have h0 := (byteAt P 0).toNat_lt
  have h1 := (byteAt P 1).toNat_lt
  have h2 := (byteAt P 2).toNat_lt
  have h3 := (byteAt P 3).toNat_lt
  have hload : load P 0 4 = [byteAt P 0, byteAt P 1, byteAt P 2, byteAt P 3] := rfl
  have hnum : be32 P 0 = ((byteAt P 0).toNat * 256 + (byteAt P 1).toNat) * 65536 +
      ((byteAt P 2).toNat * 256 + (byteAt P 3).toNat) := rfl
  have hbytes : load P 0 4 = ebafMarker ↔ (byteAt P 0).toNat = 0x45 ∧ (byteAt P 1).toNat = 0x42 ∧
      (byteAt P 2).toNat = 0x41 ∧ (byteAt P 3).toNat = 0x46 := by
    rw [hload, ebafMarker]
    simp only [List.cons.injEq, and_true, ← UInt8.toNat_inj]
    exact Iff.rfl
  rw [hbytes, hnum, ebafCryptoMagic]
  omega

/-- The header in front of the body is the one the payload starts with. -/
theorem framedHeader_eq_read (h : EbafCryptoHeader.size ≤ payloadLen f) :
    framedHeader f = EbafCryptoHeader.read (udpPayload f) 0 := by
  refine EbafCryptoHeader.read_congr fun i hi => ?_
  rw [udpPayload, Nat.zero_add, byteAt_load (by omega)]

/-- The body is what follows the header. -/
theorem framedBody_eq_drop : framedBody f = (udpPayload f).drop EbafCryptoHeader.size := by
  by_cases h : EbafCryptoHeader.size ≤ payloadLen f
  · have hsplit : udpPayload f = load f (payloadOff f) EbafCryptoHeader.size ++ framedBody f := by
      rw [udpPayload, framedBody, framedBodyOff, framedBodyLen, ← load_add, Nat.add_sub_cancel' h]
    rw [hsplit]
    exact (List.drop_left' length_load).symm
  · have hnone : framedBodyLen f = 0 := by
      rw [framedBodyLen]
      omega
    have hdrop : (udpPayload f).drop EbafCryptoHeader.size = [] :=
      List.drop_eq_nil_of_le (by rw [length_udpPayload]; omega)
    rw [hdrop, framedBody, hnone]
    rfl

/-! ## What the programs accept -/

/-- What passes the programs' checks is in the format. -/
theorem IsFramed.format (h : IsFramed port f) (haligned : framedBodyLen f % 16 = 0) :
    EbafFormat (udpPayload f) := by
  have hlen : (udpPayload f).length = payloadLen f := length_udpPayload
  have hread := framedHeader_eq_read h.header
  have hmagic := h.magic
  have hversion := h.version
  have hlength := h.length
  rw [hread] at hmagic hversion hlength
  constructor
  · rw [hlen]
    exact h.header
  · exact be32_eq_magic_iff.mp hmagic
  · exact hversion
  · rw [hlen]
    exact hlength
  · rw [hlen]
    exact h.body
  · rw [hlen]
    exact haligned

/-- What is in the format passes the checks. -/
theorem EbafFormat.isFramed (hf : CarriesUdp port f) (h : EbafFormat (udpPayload f)) :
    IsFramed port f := by
  have hlen : (udpPayload f).length = payloadLen f := length_udpPayload
  have hheader := h.header
  have hlength := h.length
  have hbody := h.body
  rw [hlen] at hheader hlength hbody
  have hread := framedHeader_eq_read hheader
  -- the header behind the IPv4 and UDP headers is inside the frame
  have hin := hf.inside
  have hihl := hf.ihl
  have hpay : udpOff f + 8 = payloadOff f := rfl
  have hudp : ipOff + ipIhl f * 4 = udpOff f := rfl
  have hsize : 24 ≤ payloadLen f := hheader
  have hpayload : udpLen f - 8 = payloadLen f := rfl
  rw [ipOff] at hudp
  constructor
  · omega
  · exact hf.proto
  · rw [ipOff]
    omega
  · exact hihl
  · omega
  · exact hf.udp
  · omega
  · exact hf.port
  · omega
  · exact hin
  · exact hheader
  · rw [hread]
    exact be32_eq_magic_iff.mpr h.marker
  · rw [hread]
    exact h.version
  · rw [hread]
    exact hlength
  · exact hbody

/-- **A datagram is framed when its payload is in the format**, up to alignment
and action. -/
theorem isFramed_iff (hf : CarriesUdp port f) :
    (IsFramed port f ∧ framedBodyLen f % 16 = 0) ↔ EbafFormat (udpPayload f) := by
  constructor
  · rintro ⟨h, haligned⟩
    exact h.format haligned
  · intro h
    have haligned := h.aligned
    rw [length_udpPayload] at haligned
    exact ⟨h.isFramed hf, haligned⟩

variable {config : EbafCryptoConfig}

theorem xdpAccepts_iff (hf : CarriesUdp config.udpPort f) (halgo : config.algo = ebafAlgoCbcAes) :
    XdpAccepts f config ↔ EbafFormat (udpPayload f) := by
  rw [← isFramed_iff hf]
  exact ⟨fun h => ⟨h.framed, h.aligned halgo⟩, fun h => ⟨h.1, fun _ => h.2⟩⟩

theorem tcAccepts_iff (hf : CarriesUdp config.udpPort f) (halgo : config.algo = ebafAlgoCbcAes)
    (haction : config.action = ebafActionEncrypt ∨ config.action = ebafActionDecrypt) :
    TcAccepts f config ↔ EbafFormat (udpPayload f) ∧ actionByte (udpPayload f) = 1 := by
  have hmarked : EbafFormat (udpPayload f) →
      (framedHeader f).action = actionByte (udpPayload f) := by
    intro h
    have hheader := h.header
    rw [length_udpPayload] at hheader
    exact congrArg EbafCryptoHeader.action (framedHeader_eq_read hheader)
  constructor
  · intro h
    have hformat := (isFramed_iff hf).mp ⟨h.framed, h.aligned⟩
    exact ⟨hformat, (hmarked hformat).symm.trans h.marked⟩
  · rintro ⟨hformat, hact⟩
    obtain ⟨framed, aligned⟩ := (isFramed_iff hf).mpr hformat
    exact ⟨framed, hf.whole, haction, halgo, (hmarked hformat).trans hact, aligned⟩

/-! ## What is handed to the cipher -/

/-- A framed program hands these bytes to the cipher, in one call. -/
def FramedProgram.HandsOver (p : FramedProgram) (K : CryptoKernel Ctx) (e : Env Ctx)
    (s : PacketState Ctx) (body : List UInt8) : Prop :=
  ∃ call, AddsCalls s ((p.run K e).exec s) [call] ∧ call.body = body

/-- **The body is handed over when the program accepts the frame.** -/
theorem FramedProgram.handsOver_iff (p : FramedProgram) (K : CryptoKernel Ctx) (e : Env Ctx)
    (s : PacketState Ctx) {c : Ctx} (hconfig : e.config = some config) (hkey : Keyed e c)
    (haction : config.action = ebafActionEncrypt ∨ config.action = ebafActionDecrypt) :
    p.HandsOver K e s ((udpPayload s.frame).drop EbafCryptoHeader.size) ↔
      p.Accepts s.frame config := by
  have hend := p.spec K e s
  have hselected : ∃ d, p.direction config = some d := by
    rcases haction with h | h
    · exact ⟨_, direction_encrypt h⟩
    · exact ⟨_, direction_decrypt h⟩
  obtain ⟨d, hd⟩ := hselected
  constructor
  · rintro ⟨call, hcall, -⟩
    by_contra hn
    have hnone := hend.no_call (not_handed hconfig hn)
    rw [AddsCalls, hcall] at hnone
    exact List.cons_ne_nil _ _ (List.append_cancel_left hnone)
  · intro ha
    exact ⟨_, hend.call_of_handed ⟨hconfig, ha, hkey, hd⟩, framedBody_eq_drop⟩

/-- A payload that has an action byte has one of the two documented. -/
def KnownAction (P : List UInt8) : Prop :=
  EbafCryptoHeader.size ≤ P.length → actionByte P = 1 ∨ actionByte P = 2

/-- **What the framed programs accept.**  For every unfragmented IPv4/UDP datagram
to the configured port that lies in its frame, under AES-CBC in either direction
and with a context installed: `tc_crypto` hands the body to the cipher exactly
when the payload is in the documented format with action byte 1, and `xdp_crypto`,
for a payload with a documented action byte, exactly when it is in the documented
format. -/
theorem framed_format_accepted (K : CryptoKernel Ctx) (e : Env Ctx) (s : PacketState Ctx)
    (config : EbafCryptoConfig) (c : Ctx) (hconfig : e.config = some config)
    (halgo : config.algo = ebafAlgoCbcAes)
    (haction : config.action = ebafActionEncrypt ∨ config.action = ebafActionDecrypt)
    (hkey : Keyed e c) (hf : CarriesUdp config.udpPort s.frame) :
    (FramedProgram.tc.HandsOver K e s ((udpPayload s.frame).drop EbafCryptoHeader.size) ↔
        FramedFormat (udpPayload s.frame) ∧ actionByte (udpPayload s.frame) = 1) ∧
      (KnownAction (udpPayload s.frame) →
        (FramedProgram.xdp.HandsOver K e s ((udpPayload s.frame).drop EbafCryptoHeader.size) ↔
          FramedFormat (udpPayload s.frame))) := by
  constructor
  · refine (FramedProgram.handsOver_iff .tc K e s hconfig hkey haction).trans ?_
    refine (tcAccepts_iff hf halgo haction).trans ?_
    constructor
    · rintro ⟨hformat, hact⟩
      exact ⟨⟨hformat, Or.inl hact⟩, hact⟩
    · rintro ⟨hformat, hact⟩
      exact ⟨hformat.toEbafFormat, hact⟩
  · intro hknown
    refine (FramedProgram.handsOver_iff .xdp K e s hconfig hkey haction).trans ?_
    refine (xdpAccepts_iff hf halgo).trans ?_
    constructor
    · intro hformat
      exact ⟨hformat, hknown hformat.header⟩
    · intro hformat
      exact hformat.toEbafFormat

/-! ## Two datagrams -/

/-- What the transparent program accepts carries a UDP datagram. -/
theorem IsTransparent.carriesUdp (h : IsTransparent port f) : CarriesUdp port f where
  proto := h.proto
  ihl := Nat.le_of_eq h.ihl.symm
  whole := h.whole
  udp := h.udp
  port := h.port
  inside := h.inside

theorem udpPayload_datagram (h : Fits P) : udpPayload (datagram port P) = P := by
  rw [udpPayload, payloadOff_datagram, payloadLen_datagram h]
  exact (load_datagram (i := 0)).trans load_full

/-- A block to be encrypted, in the framed format. -/
theorem framed_format_of_block :
    (FramedProgram.tc.HandsOver (knownKernel _) knownSender plainBlock
          ((udpPayload plainBlock.frame).drop EbafCryptoHeader.size) ↔
        FramedFormat (udpPayload plainBlock.frame) ∧ actionByte (udpPayload plainBlock.frame) = 1) ∧
      (KnownAction (udpPayload plainBlock.frame) →
        (FramedProgram.xdp.HandsOver (knownKernel _) knownSender plainBlock
            ((udpPayload plainBlock.frame).drop EbafCryptoHeader.size) ↔
          FramedFormat (udpPayload plainBlock.frame))) :=
  framed_format_accepted (knownKernel _) knownSender plainBlock (knownConfig ebafActionEncrypt)
    knownKey rfl rfl (Or.inl rfl) ⟨rfl, by decide⟩ (datagram_isTransparent (by decide)).carriesUdp

/-- A block whose header has the given action byte. -/
def markedPayload (action : UInt8) (block : List UInt8) : List UInt8 :=
  { bodyHdr knownIv block with action := action }.bytes ++ block

/-- A packet with such a block. -/
def markedPacket (action : UInt8) (block : List UInt8) : PacketState (List UInt8) :=
  entering (datagram 7777 (markedPayload action block)) (some .zero)

/-- The documented action bytes are not those the programs accept: `tc_crypto` does
not hand over a block that is to be decrypted, and `xdp_crypto` hands over one whose
header names no action. -/
theorem documented_actions_differ :
    ¬ (FramedProgram.tc.HandsOver (knownKernel _) knownReceiver (markedPacket 2 knownCipher)
        ((udpPayload (markedPacket 2 knownCipher).frame).drop EbafCryptoHeader.size) ↔
      FramedFormat (udpPayload (markedPacket 2 knownCipher).frame)) ∧
    ¬ (FramedProgram.xdp.HandsOver (knownKernel _) knownSender (markedPacket 0 knownPlain)
        ((udpPayload (markedPacket 0 knownPlain).frame).drop EbafCryptoHeader.size) ↔
      FramedFormat (udpPayload (markedPacket 0 knownPlain).frame)) := by
  constructor
  · have payload : udpPayload (markedPacket 2 knownCipher).frame = markedPayload 2 knownCipher :=
      udpPayload_datagram (by decide)
    have format : FramedFormat (markedPayload 2 knownCipher) :=
      ⟨⟨by decide, by decide, by decide, by decide, by decide, by decide⟩, Or.inr (by decide)⟩
    have carries : CarriesUdp (knownConfig ebafActionDecrypt).udpPort
        (markedPacket 2 knownCipher).frame := (datagram_isTransparent (by decide)).carriesUdp
    intro h
    have handed := h.mpr (by rwa [payload])
    have accepts := (FramedProgram.handsOver_iff .tc (knownKernel _) knownReceiver
      (markedPacket 2 knownCipher) rfl ⟨rfl, by decide⟩ (Or.inr rfl)).mp handed
    have action := ((tcAccepts_iff carries rfl (Or.inr rfl)).mp accepts).2
    rw [payload] at action
    exact absurd action (by decide)
  · have payload : udpPayload (markedPacket 0 knownPlain).frame = markedPayload 0 knownPlain :=
      udpPayload_datagram (by decide)
    have format : EbafFormat (markedPayload 0 knownPlain) :=
      ⟨by decide, by decide, by decide, by decide, by decide, by decide⟩
    have carries : CarriesUdp (knownConfig ebafActionEncrypt).udpPort
        (markedPacket 0 knownPlain).frame := (datagram_isTransparent (by decide)).carriesUdp
    intro h
    have accepts := (xdpAccepts_iff carries rfl).mpr (by rwa [payload])
    have handed := (FramedProgram.handsOver_iff .xdp (knownKernel _) knownSender
      (markedPacket 0 knownPlain) rfl ⟨rfl, by decide⟩ (Or.inl rfl)).mpr accepts
    have action := (h.mp handed).action
    rw [payload] at action
    exact absurd action (by decide)

end Ebaf
