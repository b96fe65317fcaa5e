import Ebaf.ChatScripts
import Ebaf.FramedFormat

/-! # The chat scripts and the framed programs

The server's `parse_packet` and `tc_crypto` check a packet in different orders,
one on a struct and one through packet pointers; they accept the same payloads,
those in the framed format with action byte 1.  What the client sends is such a
payload, and the message comes out of it, also after an encryption and a
decryption on the way.
-/
namespace Ebaf
open ByteWindow EarlyExit

variable {Ctx : Type} {K : CryptoKernel Ctx} {P message iv : List UInt8} {f : Frame}
  {port : UInt16}

/-! ## What the server accepts -/

/-- **`parse_packet` accepts the framed format** with action byte 1, and returns the
body with its length. -/
theorem parsePacket_eq_ok_iff {r : Nat × List UInt8} :
    parsePacket P = .ok r ↔ (EbafFormat P ∧ actionByte P = 1) ∧
      r = (P.length - EbafCryptoHeader.size, P.drop EbafCryptoHeader.size) := by
  unfold parsePacket
  simp only [raiseIf_bind_eq_ok]
  simp only [headerUnpackFrom, List.length_drop, ne_eq, not_not, Nat.not_lt]
  constructor
  · rintro ⟨hsize, hmagic, hversion, haction, hlength, hbody, haligned, -, hr⟩
    rw [hlength] at hbody haligned hr
    exact ⟨⟨⟨hsize, be32_eq_magic_iff.mp hmagic, hversion, hlength, hbody, haligned⟩, haction⟩,
      (Except.ok.inj hr).symm⟩
  · rintro ⟨⟨h, haction⟩, rfl⟩
    refine ⟨h.header, be32_eq_magic_iff.mpr h.marker, h.version, haction, h.length, ?_, ?_,
      length_load, ?_⟩
    · rw [h.length]
      exact h.body
    · rw [h.length]
      exact h.aligned
    · rw [h.length]
      rfl

theorem parsePacket_isOk_iff : (∃ r, parsePacket P = .ok r) ↔ EbafFormat P ∧ actionByte P = 1 := by
  constructor
  · rintro ⟨r, hr⟩
    exact (parsePacket_eq_ok_iff.mp hr).1
  · intro h
    exact ⟨_, parsePacket_eq_ok_iff.mpr ⟨h, rfl⟩⟩

/-! ## What the client sends -/

/-- **The client sends a framed payload** with the padded message as its body. -/
theorem chatPacket_eq_some (hiv : iv.length = ebafCryptoIvBytes)
    (h : chatPacket message iv = some P) :
    P = framedPayload iv (padBody message) ∧ (padBody message).length < 65536 := by
  unfold chatPacket at h
  simp only at h
  split at h
  · cases h
  · rename_i hfits
    have hsmall : (padBody message).length < 65536 := by omega
    have hload : load iv 0 ebafCryptoIvBytes = iv := by
      rw [← hiv]
      exact load_full
    refine ⟨(Option.some.inj h).symm.trans ?_, hsmall⟩
    rw [framedPayload, EbafCryptoHeader.bytes, bodyHdr, Nat.mod_eq_of_lt hsmall, hload]
    rfl

/-- A framed payload with a body of whole blocks is in the format. -/
theorem framedPayload_format {body : List UInt8} (hiv : iv.length = ebafCryptoIvBytes)
    (hsmall : body.length < 65536) (hne : body.length ≠ 0) (haligned : body.length % 16 = 0) :
    EbafFormat (framedPayload iv body) ∧ actionByte (framedPayload iv body) = 1 := by
  have hread : EbafCryptoHeader.read (framedPayload iv body) 0 = bodyHdr iv body :=
    read_framedPayload hiv
  have hlen : (framedPayload iv body).length - EbafCryptoHeader.size = body.length := by
    rw [length_framedPayload, Nat.add_sub_cancel_left]
  have hmagic : be32 (framedPayload iv body) 0 = ebafCryptoMagic :=
    congrArg EbafCryptoHeader.magic hread
  have hlength : be16 (framedPayload iv body) 6 = body.length % 65536 :=
    congrArg EbafCryptoHeader.payloadLen hread
  rw [Nat.mod_eq_of_lt hsmall] at hlength
  refine ⟨⟨?_, be32_eq_magic_iff.mp hmagic, congrArg EbafCryptoHeader.version hread, ?_, ?_, ?_⟩,
    congrArg EbafCryptoHeader.action hread⟩
  · rw [length_framedPayload]
    exact Nat.le_add_right _ _
  · rw [hlen, hlength]
  · rw [hlen]
    exact hne
  · rw [hlen]
    exact haligned

theorem drop_framedPayload {body : List UInt8} :
    (framedPayload iv body).drop EbafCryptoHeader.size = body :=
  List.drop_left' (EbafCryptoHeader.length_bytes _)

/-- A padded message is a body of whole blocks. -/
theorem padBody_blocks (message : List UInt8) :
    (padBody message).length ≠ 0 ∧ (padBody message).length % 16 = 0 := by
  constructor
  · rw [padBody_eq_pad, BlockPadding.pad, List.length_append, BlockPadding.length_tail]
    have := Nat.mod_lt message.length (show 0 < ebafCryptoBlockBytes by decide)
    omega
  · rw [padBody_eq_pad]
    exact BlockPadding.pad_aligned (by decide) message

/-- What the client sends is in the format, and its body is the padded message. -/
theorem chatPacket_format (hiv : iv.length = ebafCryptoIvBytes)
    (h : chatPacket message iv = some P) :
    (EbafFormat P ∧ actionByte P = 1) ∧ P.drop EbafCryptoHeader.size = padBody message := by
  obtain ⟨rfl, hsmall⟩ := chatPacket_eq_some hiv h
  obtain ⟨hne, haligned⟩ := padBody_blocks message
  exact ⟨framedPayload_format hiv hsmall hne haligned, drop_framedPayload⟩

/-- **The server prints the message the client was given.** -/
theorem receivedMessage_chatPacket (hiv : iv.length = ebafCryptoIvBytes)
    (h : chatPacket message iv = some P) : receivedMessage P = .ok message := by
  obtain ⟨hformat, hbody⟩ := chatPacket_format hiv h
  rw [receivedMessage, parsePacket_eq_ok_iff.mpr ⟨hformat, rfl⟩, hbody]
  exact unpadBody_padBody message

/-! ## Through the kernel -/

/-- The kernel answers with an AES-CBC configuration for one of the two actions, and
with a context. -/
structure ServesAes (e : Env Ctx) (config : EbafCryptoConfig) (c : Ctx) : Prop where
  configured : e.config = some config
  algo : config.algo = ebafAlgoCbcAes
  action : config.action = ebafActionEncrypt ∨ config.action = ebafActionDecrypt
  keyed : Keyed e c

/-- `tc_crypto` hands over what the server accepts. -/
theorem ServesAes.handsOver_iff {e : Env Ctx} {s : PacketState Ctx} {config : EbafCryptoConfig}
    {c : Ctx} (h : ServesAes e config c) (hf : CarriesUdp config.udpPort s.frame) :
    FramedProgram.tc.HandsOver K e s ((udpPayload s.frame).drop EbafCryptoHeader.size) ↔
      EbafFormat (udpPayload s.frame) ∧ actionByte (udpPayload s.frame) = 1 :=
  (FramedProgram.handsOver_iff .tc K e s h.configured h.keyed h.action).trans
    (tcAccepts_iff hf h.algo h.action)

/-- Clearing the UDP checksum leaves the payload. -/
theorem udpPayload_clearCheck (f : Frame) :
    udpPayload (store f (udpOff f + 6) [0, 0]) = udpPayload f := by
  have hsame : SameHeaders f (store f (udpOff f + 6) [0, 0]) := by
    refine ⟨length_store, fun i _ hi => byteAt_store_out ?_⟩
    simp only [List.length_cons, List.length_nil]
    omega
  rw [udpPayload, udpPayload, hsame.payloadOff, hsame.payloadLen]
  refine load_store_disjoint (Or.inr ?_)
  rw [payloadOff]
  exact Nat.le_refl _

/-- **Encrypted and decrypted, a framed payload is what it was.** -/
theorem tcCrypto_restores_payload {e₁ e₂ : Env Ctx} {s₁ s₂ : PacketState Ctx}
    {config₁ config₂ : EbafCryptoConfig} {c : Ctx} (h₁ : ServesAes e₁ config₁ c)
    (h₂ : ServesAes e₂ config₂ c) (henc : config₁.action = ebafActionEncrypt)
    (hdec : config₂.action = ebafActionDecrypt) (hport : config₂.udpPort = config₁.udpPort)
    (hok₁ : e₁.fails .cipher = false) (hok₂ : e₂.fails .cipher = false)
    (hinv : K.Inverts c fun n => n % 16 = 0) (hf : CarriesUdp config₁.udpPort s₁.frame)
    (hformat : EbafFormat (udpPayload s₁.frame) ∧ actionByte (udpPayload s₁.frame) = 1)
    (hframe : s₂.frame = ((tcCrypto K e₁).exec s₁).frame) :
    udpPayload ((tcCrypto K e₂).exec s₂).frame = udpPayload s₁.frame := by
  have accepts : TcAccepts s₁.frame config₁ := (tcAccepts_iff hf h₁.algo h₁.action).mpr hformat
  have handed : Handed e₁ (FramedProgram.tc.Accepts s₁.frame) FramedProgram.tc.direction config₁ c
      .encrypt :=
    ⟨h₁.configured, accepts, h₁.keyed, FramedProgram.direction_encrypt henc⟩
  have sent : ((tcCrypto K e₁).exec s₁).frame = framedCrypt K .encrypt c s₁.frame := by
    have hend := (FramedProgram.tc.spec K e₁ s₁).transformed_of_handed handed hok₁
    exact congrArg PacketState.frame hend
  have takes : FramedProgram.tc.Takes config₂ s₁.frame := by
    refine ⟨?_, fun _ => accepts.aligned, fun _ => ⟨h₂.algo, accepts.marked, accepts.whole⟩⟩
    rw [hport]
    exact accepts.framed
  obtain ⟨-, -, received⟩ := FramedProgram.received (q := .tc) h₂.configured hdec
    h₂.keyed.installed h₂.keyed.dynptrs hok₂ takes (hframe.trans sent)
    fun iv body hn => hinv iv body (hn h₂.algo)
  exact (congrArg udpPayload received).trans (udpPayload_clearCheck _)

/-- **User-space and in-kernel framing agree.**  For every unfragmented IPv4/UDP
datagram to the configured port, `parse_packet` accepts the payload exactly when
`tc_crypto`, configured for AES-CBC, hands the body to the cipher.  What the client
sends for a message is accepted by both, and the server gets the message back from
it, directly and from what `tc_crypto` makes of it by encryption and decryption. -/
theorem chat_framing_agrees (K : CryptoKernel Ctx) :
    (∀ (e : Env Ctx) (s : PacketState Ctx) (config : EbafCryptoConfig) (c : Ctx),
      ServesAes e config c → CarriesUdp config.udpPort s.frame →
      ((∃ r, parsePacket (udpPayload s.frame) = .ok r) ↔
        FramedProgram.tc.HandsOver K e s ((udpPayload s.frame).drop EbafCryptoHeader.size))) ∧
      ∀ message iv P, iv.length = ebafCryptoIvBytes → chatPacket message iv = some P →
        receivedMessage P = .ok message ∧
        (∀ (e : Env Ctx) (s : PacketState Ctx) (config : EbafCryptoConfig) (c : Ctx),
          ServesAes e config c → CarriesUdp config.udpPort s.frame → udpPayload s.frame = P →
          FramedProgram.tc.HandsOver K e s (padBody message)) ∧
        ∀ (e₁ e₂ : Env Ctx) (s₁ s₂ : PacketState Ctx) (config₁ config₂ : EbafCryptoConfig) (c : Ctx),
          ServesAes e₁ config₁ c → ServesAes e₂ config₂ c →
          config₁.action = ebafActionEncrypt → config₂.action = ebafActionDecrypt →
          config₂.udpPort = config₁.udpPort →
          e₁.fails .cipher = false → e₂.fails .cipher = false →
          K.Inverts c (fun n => n % 16 = 0) →
          CarriesUdp config₁.udpPort s₁.frame → udpPayload s₁.frame = P →
          s₂.frame = ((tcCrypto K e₁).exec s₁).frame →
          receivedMessage (udpPayload ((tcCrypto K e₂).exec s₂).frame) = .ok message := by
  refine ⟨fun e s config c hserves hf => ?_, fun message iv P hiv hpacket => ⟨?_, ?_, ?_⟩⟩
  · rw [parsePacket_isOk_iff, hserves.handsOver_iff hf]
  · exact receivedMessage_chatPacket hiv hpacket
  · intro e s config c hserves hf hpayload
    obtain ⟨hformat, hbody⟩ := chatPacket_format hiv hpacket
    rw [← hbody, ← hpayload]
    exact (hserves.handsOver_iff hf).mpr (by rwa [hpayload])
  · intro e₁ e₂ s₁ s₂ config₁ config₂ c h₁ h₂ henc hdec hport hok₁ hok₂ hinv hf hpayload hframe
    obtain ⟨hformat, -⟩ := chatPacket_format hiv hpacket
    rw [tcCrypto_restores_payload h₁ h₂ henc hdec hport hok₁ hok₂ hinv hf (by rwa [hpayload])
      hframe, hpayload]
    exact receivedMessage_chatPacket hiv hpacket

/-- What the client sends for `hi`, with a known IV. -/
def hiPacket : List UInt8 := framedPayload knownIv (padBody [104, 105])

/-- It is accepted by both, sealed and opened on its way, and read. -/
theorem chat_framing_agrees_on_hi :
    chatPacket [104, 105] knownIv = some hiPacket ∧ (∃ r, parsePacket hiPacket = .ok r) ∧
      FramedProgram.tc.HandsOver (knownKernel _) knownSender (entering (datagram 7777 hiPacket) none)
        (padBody [104, 105]) ∧
      receivedMessage (udpPayload ((tcCrypto (knownKernel _) knownReceiver).exec
        (entering ((tcCrypto (knownKernel _) knownSender).exec
          (entering (datagram 7777 hiPacket) none)).frame none)).frame) = .ok [104, 105] := by
  have fits : Fits hiPacket := by decide
  have carries : CarriesUdp 7777 (datagram 7777 hiPacket) := (datagram_isTransparent fits).carriesUdp
  have payload : udpPayload (datagram 7777 hiPacket) = hiPacket := udpPayload_datagram fits
  have sender : ServesAes knownSender (knownConfig ebafActionEncrypt) knownKey :=
    ⟨rfl, rfl, Or.inl rfl, ⟨rfl, by decide⟩⟩
  have receiver : ServesAes knownReceiver (knownConfig ebafActionDecrypt) knownKey :=
    ⟨rfl, rfl, Or.inr rfl, ⟨rfl, by decide⟩⟩
  obtain ⟨hparses, hsends⟩ := chat_framing_agrees (knownKernel (List UInt8))
  obtain ⟨-, hhanded, hreads⟩ := hsends [104, 105] knownIv hiPacket rfl rfl
  have handed := hhanded knownSender (entering (datagram 7777 hiPacket) none) _ _ sender carries payload
  refine ⟨rfl, ?_, handed, hreads knownSender knownReceiver (entering (datagram 7777 hiPacket) none) _
    _ _ _ sender receiver rfl rfl rfl rfl rfl knownKernel_inverts carries payload rfl⟩
  have hparse := hparses knownSender (entering (datagram 7777 hiPacket) none) _ _ sender carries
  have hbody : hiPacket.drop EbafCryptoHeader.size = padBody [104, 105] := drop_framedPayload
  rw [show udpPayload (entering (datagram 7777 hiPacket) none : PacketState (List UInt8)).frame =
    hiPacket from payload, hbody] at hparse
  exact hparse.mpr handed

end Ebaf
