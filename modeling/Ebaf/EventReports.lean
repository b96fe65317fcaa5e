import Ebaf.CipherCalls
import Ebaf.FramedFootprint

/-! # What an event says of its packet

Every program submits an event for the packets it counts as transformed, and for
no others.  An event reports the one cipher call that was made for the packet:
the length of the body that was handed over, and how the body starts right after
the call.  The programs find that body in different places, in front of a
trailer or behind a header, and read it before or after the packet has changed
its length; what they report is the same (`Reports`).
-/
namespace Ebaf
open ByteWindow EarlyExit

variable {Ctx : Type} {K : CryptoKernel Ctx} {e : Env Ctx} {config : EbafCryptoConfig} {c : Ctx}
  {s s' : PacketState Ctx} {f g : Frame} {port : UInt16} {call : CipherCall Ctx}

/-- The body as it stands right after a cipher call that succeeds. -/
def CipherCall.result (K : CryptoKernel Ctx) (call : CipherCall Ctx) : List UInt8 :=
  K.crypt call.direction call.ctx call.iv call.body

/-- **What an event says** of the received frame `f` and of the cipher call.  The
sample is the start of the body as it stands right after the call. -/
structure Reports (K : CryptoKernel Ctx) (f : Frame) (call : CipherCall Ctx)
    (ev : EbafCryptoEvent) : Prop where
  ok : call.ok = true
  srcIp : ev.srcIp.toNat = ipSaddr f
  dstIp : ev.dstIp.toNat = ipDaddr f
  srcPort : ev.srcPort.toNat = be16 f (udpOff f)
  dstPort : ev.dstPort.toNat = udpDest f
  payloadLen : ev.payloadLen.toNat = payloadLen f
  dataLen : ev.dataLen.toNat = call.body.length
  sampleFits : ev.sampleLen.toNat ≤ min ebafEventSampleBytes call.body.length
  sample : ev.sample.1.take ev.sampleLen.toNat =
    (call.result K).take ev.sampleLen.toNat

/-- The sample is as long as the event and the body allow. -/
def FullSample (call : CipherCall Ctx) (ev : EbafCryptoEvent) : Prop :=
  ev.sampleLen.toNat = min ebafEventSampleBytes call.body.length

/-- A packet was not counted as transformed and not reported; or it was counted,
and the cipher call reported, with a full sample when `Loads` holds. -/
inductive Reported (K : CryptoKernel Ctx) (e : Env Ctx) (Loads : Prop)
    (s s' : PacketState Ctx) : Prop where
  | silent (hn : ¬ CountedOk s s') (hev : s'.events = s.events)
  | counted (hc : CountedOk s s') (call : CipherCall Ctx) (ev : EbafCryptoEvent)
      (hcall : AddsCalls s s' [call]) (hev : s'.events = s.events ++ submitted e ev)
      (h : Reports K s.frame call ev) (hfull : Loads → FullSample call ev)

theorem Reported.mono {Loads Loads' : Prop} (h : Reported K e Loads s s') (hl : Loads' → Loads) :
    Reported K e Loads' s s' := by
  cases h with
  | silent hn hev => exact .silent hn hev
  | counted hc call ev hcall hev h hfull =>
    exact .counted hc call ev hcall hev h fun hloads => hfull (hl hloads)

/-- The helper that reads the sample in transparent mode does not fail inside
the packet. -/
def SampleLoadsOk (e : Env Ctx) : Prop := ∀ i, e.fails (.sampleLoad i) = false

/-! ## The fields of an event -/

/-- The addresses and ports an event takes from a frame `g` are those of `f`. -/
structure SameEndpoints (f g : Frame) : Prop where
  addresses : ∀ i, ipOff + 12 ≤ i → i < ipOff + 20 → byteAt g i = byteAt f i
  ports : ∀ i, udpOff f ≤ i → i < udpOff f + 4 → byteAt g i = byteAt f i

theorem payloadLen_lt (f : Frame) : payloadLen f < 65536 :=
  Nat.lt_of_le_of_lt (Nat.sub_le ..) be16_lt

/-- The sample of an event is what its copy loop has copied. -/
theorem cryptoEvent_sample (e : Env Ctx) (config : EbafCryptoConfig) (g : Frame) (udp m n : Nat)
    (byte : Nat → Option UInt8) :
    (cryptoEvent e config g udp m n byte).sampleLen.toNat =
        (copySample byte 0 ebafEventSampleBytes).length ∧
      (cryptoEvent e config g udp m n byte).sample.1.take
        (copySample byte 0 ebafEventSampleBytes).length =
          copySample byte 0 ebafEventSampleBytes := by
  have hle : (copySample byte 0 ebafEventSampleBytes).length ≤ 32 := length_copySample byte 0 _
  constructor
  · show (UInt8.ofNat (copySample byte 0 ebafEventSampleBytes).length).toNat = _
    rw [UInt8.toNat_ofNat']
    omega
  · exact take_fillSample _ hle

/-- **The event for a call**: it is read from a frame `g` with the endpoints of
`f`, and its copy loop reads nothing but the result of the call. -/
theorem reports_cryptoEvent {udp n : Nat} {byte : Nat → Option UInt8} (hsame : SameEndpoints f g)
    (hudp : udp = udpOff f) (hn : call.body.length = n) (hsmall : n < 65536) (hok : call.ok = true)
    (hbyte : ∀ i b, byte i = some b → (call.result K)[i]? = some b) :
    Reports K f call (cryptoEvent e config g udp (payloadLen f) n byte) := by
  subst hudp
  have hlen : (call.result K).length = n := (K.length_crypt ..).trans hn
  have hprefix : copySample byte 0 ebafEventSampleBytes <+: call.result K :=
    copySample_start byte (call.result K) hbyte ebafEventSampleBytes 0
  obtain ⟨hsampleLen, hsample⟩ :=
    cryptoEvent_sample e config g (udpOff f) (payloadLen f) n byte
  have hports : ∀ i, i < 3 → be16 g (udpOff f + i) = be16 f (udpOff f + i) := by
    intro i hi
    exact be16_congr (hsame.ports _ (by omega) (by omega)) (hsame.ports _ (by omega) (by omega))
  have haddr : ∀ i, i < 5 → be32 g (ipOff + 12 + i) = be32 f (ipOff + 12 + i) := by
    intro i hi
    exact be32_congr fun j hj => hsame.addresses _ (by omega) (by omega)
  constructor
  · exact hok
  · show (UInt32.ofNat (ipSaddr g)).toNat = _
    rw [UInt32.toNat_ofNat', ipSaddr, haddr 0 (by omega), Nat.mod_eq_of_lt be32_lt]
    rfl
  · show (UInt32.ofNat (ipDaddr g)).toNat = _
    rw [UInt32.toNat_ofNat', ipDaddr, haddr 4 (by omega), Nat.mod_eq_of_lt be32_lt]
    rfl
  · show (UInt16.ofNat (be16 g (udpOff f + 0))).toNat = _
    rw [UInt16.toNat_ofNat', hports 0 (by omega), Nat.mod_eq_of_lt be16_lt]
    rfl
  · show (UInt16.ofNat (be16 g (udpOff f + 2))).toNat = _
    rw [UInt16.toNat_ofNat', hports 2 (by omega), Nat.mod_eq_of_lt be16_lt]
    rfl
  · show (UInt16.ofNat (payloadLen f)).toNat = _
    rw [UInt16.toNat_ofNat', Nat.mod_eq_of_lt (payloadLen_lt f)]
  · show (UInt16.ofNat n).toNat = _
    rw [UInt16.toNat_ofNat', Nat.mod_eq_of_lt hsmall, hn]
  · rw [hsampleLen, hn, ← hlen]
    exact Nat.le_min.mpr ⟨length_copySample byte 0 _, hprefix.length_le⟩
  · rw [hsampleLen, hsample]
    exact List.prefix_iff_eq_take.mp hprefix

/-- The sample is full when the copy loop can read the whole result. -/
theorem fullSample_cryptoEvent {udp m n : Nat} {byte : Nat → Option UInt8}
    (hn : call.body.length = n)
    (hbyte : ∀ i, byte i = if n ≤ i then none else some (byteAt (call.result K) i)) :
    FullSample call (cryptoEvent e config g udp m n byte) := by
  have hlen : (call.result K).length = n := (K.length_crypt ..).trans hn
  rw [FullSample, (cryptoEvent_sample ..).1,
    copySample_eq byte (call.result K) (by rw [hlen]; exact hbyte), List.drop_zero,
    List.length_take, hlen, hn]

/-- A loop that reads the whole result reads nothing else. -/
theorem read_of_all {n i : Nat} {b : UInt8} {bs : List UInt8} {byte : Nat → Option UInt8}
    (hlen : bs.length = n) (hbyte : ∀ i, byte i = if n ≤ i then none else some (byteAt bs i))
    (h : byte i = some b) : bs[i]? = some b := by
  rw [hbyte] at h
  split at h
  · cases h
  · have hi : i < bs.length := by omega
    rw [List.getElem?_eq_getElem hi, ← byteAt_of_lt hi]
    exact h

/-! ## The framed programs -/

theorem framedCrypt_sameEndpoints (hf : IsFramed port f) (d : Direction) (c : Ctx) :
    SameEndpoints f (framedCrypt K d c f) := by
  have hsame : SameHeaders f (framedCrypt K d c f) := framedCrypt_sameHeaders d c
  have hudp : ipOff + 20 ≤ udpOff f := by
    have := hf.ihl
    rw [udpOff]
    omega
  constructor
  · intro i _ hi
    exact hsame.byteAt_eth (by omega)
  · intro i _ hi
    exact hsame.byteAt_eth (by omega)

/-- The event of a framed program reports its call, with a full sample. -/
theorem framedEvent_reports (hf : IsFramed port f) (d : Direction) (c : Ctx) :
    Reports K f (framedCall f d c true) (framedEvent e config f (framedCrypt K d c f)) ∧
      FullSample (framedCall f d c true) (framedEvent e config f (framedCrypt K d c f)) := by
  have hlen : (K.crypt d c (framedIv f) (framedBody f)).length = framedBodyLen f :=
    (K.length_crypt ..).trans framedBody_length
  have hin := hf.body_inside
  have hbody : framedBody (framedCrypt K d c f) = K.crypt d c (framedIv f) (framedBody f) :=
    framedBody_withBody hf hlen
  rw [framedBody, (framedCrypt_sameHeaders d c).framedBodyOff,
    (framedCrypt_sameHeaders d c).framedBodyLen] at hbody
  have hsmall : framedBodyLen f < 65536 :=
    Nat.lt_of_le_of_lt (Nat.sub_le ..) (payloadLen_lt f)
  have hbyte : ∀ i, (if framedBodyLen f ≤ i ∨
        (framedCrypt K d c f).length < framedBodyOff f + i + 1 then none
      else some (byteAt (framedCrypt K d c f) (framedBodyOff f + i))) =
      if framedBodyLen f ≤ i then none
      else some (byteAt (K.crypt d c (framedIv f) (framedBody f)) i) := by
    intro i
    by_cases hi : framedBodyLen f ≤ i
    · rw [if_pos hi, if_pos (Or.inl hi)]
    · have hroom : ¬ (framedBodyLen f ≤ i ∨
          (framedCrypt K d c f).length < framedBodyOff f + i + 1) := by
        rw [framedCrypt, length_withBody]
        omega
      rw [if_neg hi, if_neg hroom, ← byteAt_load (Nat.not_le.mp hi), hbody]
  constructor
  · exact reports_cryptoEvent (framedCrypt_sameEndpoints hf d c) rfl framedBody_length hsmall rfl
      fun i b h => read_of_all hlen hbyte h
  · exact fullSample_cryptoEvent framedBody_length hbyte

/-- A framed program reports what it counts. -/
theorem FramedProgram.reported (p : FramedProgram) (K : CryptoKernel Ctx) (e : Env Ctx)
    {Loads : Prop} {st : EbafCryptoStats} (hst : s.stats = some st) :
    Reported K e Loads s ((p.run K e).exec s) := by
  have hend := p.spec K e s
  generalize (p.run K e).exec s = s' at hend
  by_cases hc : CountedOk s s'
  · obtain ⟨config, c, d, hd, -, rfl⟩ := hend.done_of_countedOk hc
    have hf : IsFramed config.udpPort s.frame := Accepts.framed hd.accepted
    exact .counted hc _ _ rfl rfl (framedEvent_reports hf d c).1
      fun _ => (framedEvent_reports hf d c).2
  · exact .silent hc (hend.kept_of_not_countedOk hst hc).2

/-! ## The transparent program -/

/-- The event of the transparent program reports a call whose result is in the
frame. -/
theorem transparentEvent_reports (hsame : SameEndpoints f g) (hpointers : SamePointers f g)
    {n off : Nat} (hn : call.body.length = n) (hsmall : n < 65536) (hok : call.ok = true)
    (hresult : load g off n = call.result K) :
    Reports K f call (transparentEvent e config (payloadLen f) n off g) := by
  refine reports_cryptoEvent hsame hpointers.udpOff hn hsmall hok ?_
  intro i b h
  by_cases hi : n ≤ i
  · rw [if_pos hi] at h
    cases h
  · rw [if_neg hi] at h
    obtain ⟨bs, hbs, rfl⟩ := Option.map_eq_some_iff.mp h
    obtain ⟨-, rfl⟩ := bpfSkbLoadBytes_eq_some hbs
    have hlt : i < (load g off n).length := by
      rw [length_load]
      omega
    rw [← hresult, List.getElem?_eq_getElem hlt, ← byteAt_of_lt hlt, byteAt_load (by omega),
      byteAt_load (by omega), Nat.add_zero]

/-- Its sample is full when the helper that reads it does not fail. -/
theorem transparentEvent_full (hloads : SampleLoadsOk e) {m n off : Nat}
    (hn : call.body.length = n) (hin : off + n ≤ g.length)
    (hresult : load g off n = call.result K) :
    FullSample call (transparentEvent e config m n off g) := by
  refine fullSample_cryptoEvent (K := K) hn ?_
  intro i
  by_cases hi : n ≤ i
  · rw [if_pos hi, if_pos hi]
  · have hload : ¬ (e.fails (.sampleLoad i) = true ∨ g.length < off + i + 1) := by
      rw [hloads i]
      simp only [Bool.false_eq_true, false_or]
      omega
    rw [if_neg hi, if_neg hi, bpfSkbLoadBytes, if_neg hload, Option.map_some,
      byteAt_load (by omega), Nat.add_zero, ← hresult, byteAt_load (Nat.not_le.mp hi)]

theorem sealFrame_sameEndpoints {iv : List UInt8} (hf : IsTransparent port f) :
    SameEndpoints f (sealFrame K c iv f) := by
  have hpay := hf.payloadOff
  have hudp := hf.udpOff
  have hkept : ∀ i, i < 42 → (ipOff + 12 ≤ i ∧ i < udpOff f + 4) →
      byteAt (sealFrame K c iv f) i = byteAt f i := by
    intro i hi hout
    rw [byteAt_sealFrame (Or.inl (by omega)), grownFrame,
      byteAt_relength_out (by omega) (by omega) (by omega), byteAt_withTrailer hf (by omega)]
  constructor
  · intro i hlo hhi
    rw [ipOff] at hlo hhi
    exact hkept i (by omega) ⟨by rw [ipOff]; omega, by omega⟩
  · intro i hlo hhi
    exact hkept i (by omega) ⟨by rw [ipOff]; omega, hhi⟩

theorem decipheredFrame_sameEndpoints (hf : IsTransparent port f) :
    SameEndpoints f (decipheredFrame K c f) := by
  have hpay := hf.payloadOff
  have hudp := hf.udpOff
  constructor
  · intro i _ hi
    rw [ipOff] at hi
    exact byteAt_decipheredFrame (by omega)
  · intro i _ hi
    exact byteAt_decipheredFrame (by omega)

/-- Encryption reports what it counts. -/
theorem EncryptEnd.reported (h : EncryptEnd K e config s s') {st : EbafCryptoStats}
    (hst : s.stats = some st) : Reported K e (SampleLoadsOk e) s s' := by
  cases h with
  | refused _ hs =>
    obtain ⟨d, hd, rfl⟩ := hs
    exact .silent (not_countedOk hd rfl) rfl
  | stranded _ _ _ hs =>
    obtain ⟨d, hd, hstats⟩ := hs.stats
    exact .silent (not_countedOk hd hstats) hs.events
  | cipherFailed _ _ _ hs =>
    subst hs
    exact .silent (not_countedOk_of_doublyFailed rfl) rfl
  | ivLost _ _ _ _ _ hstats hevents _ => exact .silent (not_countedOk (by simp) hstats) hevents
  | sealed c h _ _ hs =>
    subst hs
    have hf : IsTransparent config.udpPort s.frame := h.accepted.datagram
    have hin := hf.inside
    have hdelta := payload_delta s.frame
    have hsmall : sealedLen s.frame < 65536 := by
      have hpad := padLen_le (payloadLen s.frame)
      have hpayload := h.grows.small
      rw [ebafMaxTransparentPayload] at hpayload
      rw [sealedLen]
      omega
    refine .counted (countedOk_of_accounted hst rfl) _ _ rfl rfl ?_ fun hloads => ?_
    · exact transparentEvent_reports (sealFrame_sameEndpoints hf) (sealFrame_samePointers hf)
        length_paddedPayload hsmall rfl (load_sealFrame_body hf)
    · refine transparentEvent_full hloads length_paddedPayload ?_ (load_sealFrame_body hf)
      rw [length_sealFrame]
      omega

/-- A packet that was counted as transformed is counted as such whatever else it
is counted as. -/
theorem Undone.countedOk {t : PacketState Ctx} (h : Undone t s') (hc : CountedOk s t) :
    CountedOk s s' := by
  obtain ⟨d, hd, hstats⟩ := h.stats
  obtain ⟨st, st', hst, hst', hinc⟩ := hc
  refine ⟨st, d.count st', hst, ?_, ?_⟩
  · rw [hstats, hst']
    rfl
  · rw [Disposition.count_cryptoOk hd, hinc]

/-- Decryption reports what it counts. -/
theorem DecryptEnd.reported (h : DecryptEnd K e config s s') {st : EbafCryptoStats}
    (hst : s.stats = some st) : Reported K e (SampleLoadsOk e) s s' := by
  have deciphered_reports : ∀ c, ReadyToOpen e config s.frame c →
      Reports K s.frame ⟨.decrypt, c, cipherBody s.frame, (tailHdr s.frame).iv, true⟩
        (transparentEvent e config (payloadLen s.frame) (openedLen s.frame) (payloadOff s.frame)
          (decipheredFrame K c s.frame)) ∧
      (SampleLoadsOk e → FullSample ⟨.decrypt, c, cipherBody s.frame, (tailHdr s.frame).iv, true⟩
        (transparentEvent e config (payloadLen s.frame) (openedLen s.frame) (payloadOff s.frame)
          (decipheredFrame K c s.frame))) := by
    intro c h
    have hf : IsTransparent config.udpPort s.frame := h.accepted.datagram
    have hin := hf.inside
    have hpay := h.trailer.payloadLen_eq
    have hsmall := payloadLen_lt s.frame
    have hbody : payloadOff s.frame + openedLen s.frame ≤ s.frame.length := by omega
    constructor
    · refine transparentEvent_reports (decipheredFrame_sameEndpoints hf) ?_ length_cipherBody
        (by omega) rfl (load_decipheredFrame hbody)
      exact byteAt_decipheredFrame (by rw [hf.payloadOff, ipOff]; omega)
    · intro hloads
      exact transparentEvent_full (K := K) hloads length_cipherBody
        (by rw [length_decipheredFrame]; exact hbody) (load_decipheredFrame hbody)
  have counted : ∀ c, CountedOk s (deciphered K e config c s) :=
    fun c => countedOk_of_accounted hst rfl
  cases h with
  | refused _ hs =>
    obtain ⟨d, hd, rfl⟩ := hs
    exact .silent (not_countedOk hd rfl) rfl
  | cipherFailed _ _ _ hs =>
    subst hs
    exact .silent (not_countedOk_of_doublyFailed rfl) rfl
  | undone c h _ _ hs =>
    obtain ⟨hreports, hfull⟩ := deciphered_reports c h
    exact .counted (hs.countedOk (counted c)) _ _ hs.calls hs.events hreports hfull
  | opened c h _ _ _ _ hs =>
    subst hs
    obtain ⟨hreports, hfull⟩ := deciphered_reports c h
    exact .counted (counted c) _ _ rfl rfl hreports hfull

/-! ## All programs -/

/-- **Every program reports what it counts.** -/
theorem PacketProgram.reported (p : PacketProgram) (K : CryptoKernel Ctx) (e : Env Ctx)
    {st : EbafCryptoStats} (hst : s.stats = some st) :
    Reported K e (p = .transparent → SampleLoadsOk e) s ((p.run K e).exec s) := by
  cases p with
  | framed p => exact p.reported K e hst
  | transparent =>
    suffices reported : Reported K e (SampleLoadsOk e) s
        ((PacketProgram.transparent.run K e).exec s) from
      reported.mono fun h => h rfl
    by_cases ha : ∃ config, e.config = some config ∧ TransparentAccepts s.frame config
    · obtain ⟨config, hconfig, ha⟩ := ha
      rcases ha.action with henc | hdec
      · exact (tcTransparent_encrypt_spec hconfig henc).reported hst
      · exact (tcTransparent_decrypt_spec hconfig hdec).reported hst
    · obtain ⟨d, hd, hs⟩ := tcTransparent_refuses (K := K) (e := e) (s := s)
        fun config hc h => ha ⟨config, hc, h⟩
      have hs : (PacketProgram.transparent.run K e).exec s = s.accounted d := hs
      rw [hs]
      exact .silent (not_countedOk hd rfl) rfl

/-- **Events describe what happened.**  For every frame, and whatever the kernel
answers, a program submits an event exactly when it has counted the packet as
transformed and the reservation succeeded.  There is one event then, and it
reports the one cipher call that was made; where the helper that reads the sample
does not fail, the sample is a full one. -/
theorem PacketProgram.event_iff (p : PacketProgram) (K : CryptoKernel Ctx) (e : Env Ctx) (f : Frame)
    (st : EbafCryptoStats) :
    (((p.run K e).exec (entering f (some st))).events ≠ [] ↔
        CountedOk (entering f (some st)) ((p.run K e).exec (entering f (some st))) ∧
          e.fails .ringbufReserve = false) ∧
      ∀ ev ∈ ((p.run K e).exec (entering f (some st))).events, ∃ call,
        ((p.run K e).exec (entering f (some st))).events = [ev] ∧
        ((p.run K e).exec (entering f (some st))).cipherCalls = [call] ∧ Reports K f call ev ∧
        ((p = .transparent → SampleLoadsOk e) → FullSample call ev) := by
  have hreported := p.reported K e (s := entering f (some st)) rfl
  generalize (p.run K e).exec (entering f (some st)) = s' at hreported
  cases hreported with
  | silent hn hev =>
    have hnone : s'.events = [] := hev
    rw [hnone]
    exact ⟨⟨fun h => absurd rfl h, fun h => absurd h.1 hn⟩, fun ev hmem => by cases hmem⟩
  | counted hc call ev hcall hev h hfull =>
    have hone : s'.events = submitted e ev := hev
    rw [hone, submitted]
    by_cases hfail : e.fails .ringbufReserve = true
    · rw [if_pos hfail]
      refine ⟨⟨fun h => absurd rfl h, fun h => ?_⟩, fun ev hmem => by cases hmem⟩
      rw [h.2] at hfail
      cases hfail
    · rw [if_neg hfail]
      refine ⟨⟨fun _ => ⟨hc, Bool.eq_false_iff.mpr hfail⟩, fun _ => by simp⟩, fun ev' hmem => ?_⟩
      obtain rfl := List.mem_singleton.mp hmem
      exact ⟨call, rfl, hcall, h, hfull⟩

end Ebaf
