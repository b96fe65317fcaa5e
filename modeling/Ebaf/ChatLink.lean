import Ebaf.ChatRuns
import Ebaf.HostLink
import Mathlib.Tactic.NormNum

/-! # Chat over the framed link

The client's host encrypts with `tc_crypto` what it sends, the server's host decrypts
with `tc_crypto` what it receives.  Every frame crosses the link with the payload it
had, however the network behaves, so the server prints what clients were given and
nothing else of theirs.
-/
namespace Ebaf
open ByteWindow Utf8Text

variable {Other Other' Ctx : Type}

section Decidable
variable (port : UInt16) (f : Frame)

instance : Decidable (IsFramed port f) :=
  decidable_of_iff (14 ≤ f.length ∧ ethProto f = ethPIp ∧ ipOff + 20 ≤ f.length ∧ 5 ≤ ipIhl f ∧
      udpOff f ≤ f.length ∧ ipProtocol f = ipprotoUdp ∧ udpOff f + 8 ≤ f.length ∧
      udpDest f = port.toNat ∧ 8 ≤ udpLen f ∧ payloadOff f + payloadLen f ≤ f.length ∧
      EbafCryptoHeader.size ≤ payloadLen f ∧ (framedHeader f).magic = ebafCryptoMagic ∧
      (framedHeader f).version = ebafCryptoVersion ∧
      (framedHeader f).payloadLen = framedBodyLen f ∧ framedBodyLen f ≠ 0)
    ⟨fun ⟨heth, hproto, hip, hihl, hoptions, hudp, hheader, hport, hlen, hin, hroom, hmagic, hversion,
        hlength, hbody⟩ =>
      ⟨heth, hproto, hip, hihl, hoptions, hudp, hheader, hport, hlen, hin, hroom, hmagic, hversion,
        hlength, hbody⟩,
    fun h => ⟨h.eth, h.proto, h.ip, h.ihl, h.options, h.udp, h.udpHeader, h.port, h.udpLen, h.inside,
      h.header, h.magic, h.version, h.length, h.body⟩⟩

instance (config : EbafCryptoConfig) : Decidable (TcAccepts f config) :=
  decidable_of_iff (IsFramed config.udpPort f ∧ ¬ isFragment f ∧
      (config.action = ebafActionEncrypt ∨ config.action = ebafActionDecrypt) ∧
      config.algo = ebafAlgoCbcAes ∧ (framedHeader f).action = 1 ∧ framedBodyLen f % 16 = 0)
    ⟨fun ⟨hf, hwhole, haction, halgo, hmarked, haligned⟩ =>
      ⟨hf, hwhole, haction, halgo, hmarked, haligned⟩,
    fun h => ⟨h.framed, h.whole, h.action, h.algo, h.marked, h.aligned⟩⟩

instance : Decidable (CarriesUdp port f) :=
  decidable_of_iff (ethProto f = ethPIp ∧ 5 ≤ ipIhl f ∧ ¬ isFragment f ∧ ipProtocol f = ipprotoUdp ∧
      udpDest f = port.toNat ∧ payloadOff f + payloadLen f ≤ f.length)
    ⟨fun ⟨hproto, hihl, hwhole, hudp, hport, hin⟩ => ⟨hproto, hihl, hwhole, hudp, hport, hin⟩,
    fun h => ⟨h.proto, h.ihl, h.whole, h.udp, h.port, h.inside⟩⟩

end Decidable

/-! ## The mode -/

section Mode
variable {cfg cfg' : EbafUserConfig} {c : Ctx} {K : CryptoKernel Ctx}

/-- Both ends accept the same frames. -/
theorem Paired.tcAccepts_iff (hpair : Paired cfg cfg' (.framed .tc) (.framed .tc)) {f : Frame} :
    TcAccepts f cfg'.crypto ↔ TcAccepts f cfg.crypto := by
  constructor
  · intro h
    exact ⟨by rw [← hpair.port]; exact h.framed, h.whole, Or.inl hpair.encrypts, hpair.algo, h.marked,
      h.aligned⟩
  · intro h
    exact ⟨by rw [hpair.port]; exact h.framed, h.whole, Or.inr hpair.decrypts, hpair.algo', h.marked,
      h.aligned⟩

/-- The calls on the way of a framed packet succeed. -/
def FramedReady (e : Env Ctx) : Prop := DynptrsOk e ∧ e.fails .cipher = false

instance (e : Env Ctx) : Decidable (FramedReady e) := inferInstanceAs (Decidable (_ ∧ _))

theorem framed_seals (hpair : Paired cfg cfg' (.framed .tc) (.framed .tc)) {e : Env Ctx} {f : Frame}
    {stats : Option EbafCryptoStats} (hready : FramedReady e) (haccepts : TcAccepts f cfg.crypto) :
    ((tcCrypto K (e.keyed cfg.crypto c)).exec (entering f stats)).frame =
        framedCrypt K .encrypt c f ∧
      ((tcCrypto K (e.keyed cfg.crypto c)).exec (entering f stats)).stats =
        stats.map (EbafCryptoStats.account .cryptoOk) := by
  have hdynptrs : DynptrsOk (e.keyed cfg.crypto c) := hready.1
  have hcipher : (e.keyed cfg.crypto c).fails .cipher = false := hready.2
  have handed : Handed (e.keyed cfg.crypto c) (TcAccepts f) tcDirection cfg.crypto c .encrypt :=
    ⟨rfl, haccepts, ⟨rfl, hdynptrs⟩, FramedProgram.direction_encrypt (p := .tc) hpair.encrypts⟩
  have hend := (tcCrypto_spec K (e.keyed cfg.crypto c) (entering f stats)).transformed_of_handed
    handed hcipher
  exact ⟨congrArg PacketState.frame hend, congrArg PacketState.stats hend⟩

theorem framed_opens (hpair : Paired cfg cfg' (.framed .tc) (.framed .tc))
    (hinv : K.Inverts c fun n => n % 16 = 0) {e : Env Ctx} {f : Frame}
    {stats : Option EbafCryptoStats} (hready : FramedReady e) (haccepts : TcAccepts f cfg.crypto) :
    ((tcCrypto K (e.keyed cfg'.crypto c)).exec
        (entering (framedCrypt K .encrypt c f) stats)).frame = store f (udpOff f + 6) [0, 0] ∧
      ((tcCrypto K (e.keyed cfg'.crypto c)).exec
        (entering (framedCrypt K .encrypt c f) stats)).stats =
          stats.map (EbafCryptoStats.account .cryptoOk) := by
  have hdynptrs : DynptrsOk (e.keyed cfg'.crypto c) := hready.1
  have hcipher : (e.keyed cfg'.crypto c).fails .cipher = false := hready.2
  have haccepts' : TcAccepts f cfg'.crypto := hpair.tcAccepts_iff.mpr haccepts
  have htakes : FramedProgram.tc.Takes cfg'.crypto f :=
    ⟨haccepts'.framed, fun _ => haccepts.aligned, fun _ => ⟨hpair.algo', haccepts.marked,
      haccepts.whole⟩⟩
  obtain ⟨-, hstats, hframe⟩ := FramedProgram.received (K := K) (q := .tc) (c := c)
    (e := e.keyed cfg'.crypto c) (s := entering (framedCrypt K .encrypt c f) stats) rfl
    hpair.decrypts rfl hdynptrs hcipher htakes rfl fun iv body hn => hinv iv body (hn hpair.algo')
  exact ⟨hframe, hstats⟩

theorem framed_passes {e : Env Ctx} {config : EbafCryptoConfig} {s : PacketState Ctx}
    (hconfig : e.config = some config) (hf : ¬ TcAccepts s.frame config) :
    s.Refused ((tcCrypto K e).exec s) := by
  have hnot : ∀ config' c d, ¬ Handed e (TcAccepts s.frame) tcDirection config' c d := by
    intro config' c d handed
    obtain rfl := Option.some.inj (hconfig.symm.trans handed.configured)
    exact hf handed.accepted
  cases tcCrypto_spec K e s with
  | refused _ hs => exact hs
  | failed config c d h _ _ => exact absurd h (hnot config c d)
  | transformed config c d h _ _ => exact absurd h (hnot config c d)

/-- **Framed mode at the TC hook**: every frame is encrypted and decrypted, or passes
both programs. -/
def framedMode (hpair : Paired cfg cfg' (.framed .tc) (.framed .tc))
    (hinv : K.Inverts c fun n => n % 16 = 0) :
    LinkMode K cfg.crypto cfg'.crypto c (.framed .tc) (.framed .tc) where
  Plain f := TcAccepts f cfg.crypto
  Foreign f := ¬ TcAccepts f cfg.crypto
  Ready := FramedReady
  wire _ f := framedCrypt K .encrypt c f
  Restores f g := g = store f (udpOff f + 6) [0, 0]
  plainDecidable f := inferInstanceAs (Decidable (TcAccepts f cfg.crypto))
  apart _ hforeign hplain := hforeign hplain
  seals _ _ _ hready hplain := framed_seals hpair hready hplain
  opens _ _ _ _ hready hplain := framed_opens hpair hinv hready hplain
  passes _ _ _ hforeign := framed_passes rfl hforeign
  passes' _ f _ hforeign :=
    have hforeign' : ¬ TcAccepts f cfg'.crypto := fun h => hforeign (hpair.tcAccepts_iff.mp h)
    framed_passes rfl hforeign'

/-- Every datagram is one the link is for, so that the calls are all that is asked. -/
theorem framedMode_covers (hpair : Paired cfg cfg' (.framed .tc) (.framed .tc))
    (hinv : K.Inverts c fun n => n % 16 = 0) (st₀ st₀' : EbafCryptoStats)
    {acts : List (Channel.Act (Handover Ctx) (PacketProgram → Env Ctx))}
    (hready : ∀ a ∈ Channel.requests acts, FramedReady (a.answers (.framed .tc)))
    (hready' : ∀ answers ∈ Channel.arrivals acts, FramedReady (answers (.framed .tc))) :
    ∀ act ∈ acts, ((framedMode hpair hinv).terms st₀ st₀').Covers act :=
  Channel.Terms.covers (fun a ha => ⟨hready a ha, em _⟩) hready'

/-! ## Payloads -/

/-- A cleared UDP checksum is outside of what makes a frame one for a socket. -/
theorem carriesUdp_clearCheck {port : UInt16} {f : Frame} (hihl : 5 ≤ ipIhl f) :
    CarriesUdp port (store f (udpOff f + 6) [0, 0]) ↔ CarriesUdp port f := by
  have hudp : 34 ≤ udpOff f := by
    rw [udpOff, ipOff]
    omega
  -- the checksum lies behind everything that is looked at
  have hsame : SameHeaders f (store f (udpOff f + 6) [0, 0]) := by
    refine ⟨length_store, fun i _ hi => byteAt_store_out ?_⟩
    simp only [List.length_cons, List.length_nil]
    omega
  have hproto : ethProto (store f (udpOff f + 6) [0, 0]) = ethProto f := hsame.be16_eq (by omega)
  have hfrag : ipFragOff (store f (udpOff f + 6) [0, 0]) = ipFragOff f :=
    hsame.be16_eq (by rw [ipOff]; omega)
  have hprotocol : ipProtocol (store f (udpOff f + 6) [0, 0]) = ipProtocol f := by
    rw [ipProtocol, hsame.byteAt_eth (by rw [ipOff]; omega), ipProtocol]
  have hdest : udpDest (store f (udpOff f + 6) [0, 0]) = udpDest f := by
    rw [udpDest, hsame.udpOff]
    exact hsame.be16_eq (by omega)
  have hwhole : isFragment (store f (udpOff f + 6) [0, 0]) ↔ isFragment f := by
    rw [isFragment, isFragment, hfrag]
  constructor
  · intro h
    refine ⟨hproto ▸ h.proto, hihl, fun hf => h.whole (hwhole.mpr hf), hprotocol ▸ h.udp,
      hdest ▸ h.port, ?_⟩
    rw [← hsame.payloadOff, ← hsame.payloadLen, ← hsame.length]
    exact h.inside
  · intro h
    refine ⟨hproto.trans h.proto, ?_, fun hf => h.whole (hwhole.mp hf), hprotocol.trans h.udp,
      hdest.trans h.port, ?_⟩
    · rw [hsame.ipIhl]
      exact hihl
    · rw [hsame.payloadOff, hsame.payloadLen, hsame.length]
      exact h.inside

/-- What a socket on a port is handed of the frames that arrive. -/
def toSocket (port : UInt16) (frames : List Frame) : List (List UInt8) :=
  (frames.filter fun f => CarriesUdp port f).map udpPayload

theorem toSocket_cons (port : UInt16) (f : Frame) (frames : List Frame) :
    toSocket port (f :: frames) =
      if CarriesUdp port f then udpPayload f :: toSocket port frames else toSocket port frames := by
  by_cases hf : CarriesUdp port f <;> simp [toSocket, hf]

theorem mem_toSocket {port : UInt16} {l : List (Handover Ctx)} {data : List UInt8} :
    data ∈ toSocket port (l.map Handover.frame) ↔
      ∃ a ∈ l, CarriesUdp port a.frame ∧ udpPayload a.frame = data := by
  simp [toSocket, and_assoc]

variable {hpair : Paired cfg cfg' (.framed .tc) (.framed .tc)}
  {hinv : K.Inverts c fun n => n % 16 = 0} {port : UInt16}

/-- A frame crosses the link with the payload it had. -/
theorem payload_received (port : UInt16) {a : Handover Ctx} {g : Frame}
    (h : (framedMode hpair hinv).Received a g) :
    (CarriesUdp port g ↔ CarriesUdp port a.frame) ∧ udpPayload g = udpPayload a.frame := by
  rcases h with ⟨haccepts, rfl⟩ | ⟨-, rfl⟩
  · have haccepts : TcAccepts a.frame cfg.crypto := haccepts
    exact ⟨carriesUdp_clearCheck haccepts.framed.ihl, udpPayload_clearCheck _⟩
  · exact ⟨Iff.rfl, rfl⟩

/-- **A socket is handed what was handed down**, in the order of arrival. -/
theorem toSocket_received {l : List (Handover Ctx)} {l' : List Frame}
    (h : List.Forall₂ (framedMode hpair hinv).Received l l') :
    toSocket port l' = toSocket port (l.map Handover.frame) := by
  induction h with
  | nil => rfl
  | @cons a g l l' hreceived _ ih =>
    obtain ⟨hcarries, hpayload⟩ := payload_received port hreceived
    rw [List.map_cons, toSocket_cons, toSocket_cons, hpayload, ih]
    by_cases hf : CarriesUdp port a.frame
    · rw [if_pos hf, if_pos (hcarries.mpr hf)]
    · rw [if_neg hf, if_neg fun h => hf (hcarries.mp h)]

end Mode

/-! ## The chat -/

/-- A payload is one that a run of the client sends for a message. -/
def MadeFor (message : String) (P : List UInt8) : Prop :=
  ∃ (args : ClientArgs) (urandom : Nat → List UInt8) (sends : List ClientSend),
    (∀ i, (urandom i).length = ebafCryptoIvBytes) ∧ clientMain args urandom = .ok sends ∧
      args.message = message ∧ ∃ send ∈ sends, P = send.packet

section Chat
variable {turn : Turn} {turns : List Turn} {message : String} {P : List UInt8}

/-- A turn that serves it prints the message. -/
theorem MadeFor.line (h : MadeFor message P) (hdata : turn.data? = some P) :
    turn.line = message ∧ turn.counts = true := by
  obtain ⟨args, urandom, sends, hrandom, hclient, rfl, send, hsend, rfl⟩ := h
  obtain ⟨i, hpacket⟩ := (clientMain_sends hclient).2 send hsend
  have hmessage := receivedMessage_chatPacket (hrandom i) hpacket
  cases hrecv : turn.recvfrom with
  | timedOut =>
    rw [Turn.data?_of_timedOut hrecv] at hdata
    cases hdata
  | fails =>
    rw [Turn.data?_of_fails hrecv] at hdata
    cases hdata
  | datagram data host peer =>
    rw [Turn.data?_of_datagram hrecv] at hdata
    obtain rfl := Option.some.inj hdata
    obtain ⟨hline, hcounts⟩ := Turn.shows_of_ok hrecv hmessage
    exact ⟨hline.trans (decodeReplace_encode args.message), hcounts⟩

end Chat

theorem knownUserConfig_paired :
    Paired (knownUserConfig ebafActionEncrypt .tc) (knownUserConfig ebafActionDecrypt .tc)
      (.framed .tc) (.framed .tc) :=
  ⟨rfl, rfl, rfl, rfl, rfl, rfl, rfl, rfl⟩

end Ebaf
