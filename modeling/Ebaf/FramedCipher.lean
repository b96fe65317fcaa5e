import Ebaf.CipherOperands
import Ebaf.Events

/-! # Framed datagrams

In framed mode the EBAF header stands in front of the body, and both packet
programs transform the body in place.  `IsFramed` is what both of them check of
a frame; a `FramedDatagram` is a frame that passes, and `crypt` is what a
successful transformation makes of it: the body is replaced, the UDP checksum
cleared, and the result is a framed datagram again.

The two programs end in the same lines, from saving the IV to the event
(`framedCipher`), and differ only in the checks before and in how they read the
configured action.
-/
namespace Ebaf
open ByteWindow EarlyExit

section Layout
variable (f : Frame)

/-- The EBAF header in front of the body. -/
def framedHeader : EbafCryptoHeader := EbafCryptoHeader.read f (payloadOff f)

def framedBodyOff : Nat := payloadOff f + EbafCryptoHeader.size

def framedIvOff : Nat := payloadOff f + ebafCryptoIvOffset

/-- The number of bytes behind the header. -/
def framedBodyLen : Nat := payloadLen f - EbafCryptoHeader.size

def framedBody : List UInt8 := load f (framedBodyOff f) (framedBodyLen f)

def framedIv : List UInt8 := load f (framedIvOff f) ebafCryptoIvBytes

end Layout

/-- What both framed programs require of a frame: an IPv4/UDP datagram to the
configured port that lies in the frame and consists of an EBAF header and a
non-empty body of the length the header gives. -/
structure IsFramed (port : UInt16) (f : Frame) : Prop where
  eth : 14 ≤ f.length
  proto : ethProto f = ethPIp
  ip : ipOff + 20 ≤ f.length
  ihl : 5 ≤ ipIhl f
  options : udpOff f ≤ f.length
  udp : ipProtocol f = ipprotoUdp
  udpHeader : udpOff f + 8 ≤ f.length
  port : udpDest f = port.toNat
  udpLen : 8 ≤ udpLen f
  inside : payloadOff f + payloadLen f ≤ f.length
  header : EbafCryptoHeader.size ≤ payloadLen f
  magic : (framedHeader f).magic = ebafCryptoMagic
  version : (framedHeader f).version = ebafCryptoVersion
  length : (framedHeader f).payloadLen = framedBodyLen f
  body : framedBodyLen f ≠ 0

/-- A framed datagram to a port. -/
abbrev FramedDatagram (port : UInt16) := { f : Frame // IsFramed port f }

variable {Ctx : Type} {f g : Frame} {port : UInt16}

theorem IsFramed.body_inside (h : IsFramed port f) :
    framedBodyOff f + framedBodyLen f ≤ f.length := by
  have := h.inside
  have := h.header
  unfold framedBodyOff framedBodyLen
  omega

/-! ## The transformation -/

/-- A frame with the body replaced by `body` and the UDP checksum cleared. -/
def withBody (f : Frame) (body : List UInt8) : Frame :=
  store (store f (framedBodyOff f) body) (udpOff f + 6) [0, 0]

/-- What a successful cipher call makes of a framed datagram. -/
def framedCrypt (K : CryptoKernel Ctx) (d : Direction) (c : Ctx) (f : Frame) : Frame :=
  withBody f (K.crypt d c (framedIv f) (framedBody f))

/-- Where a transformation may write: the UDP checksum and the body. -/
def InFramedFootprint (f : Frame) (i : Nat) : Prop :=
  (udpOff f + 6 ≤ i ∧ i < udpOff f + 8) ∨
    (framedBodyOff f ≤ i ∧ i < framedBodyOff f + framedBodyLen f)

@[simp] theorem length_withBody {body : List UInt8} : (withBody f body).length = f.length := by
  simp [withBody]

/-- Everything else is unchanged. -/
theorem byteAt_withBody {body : List UInt8} (hlen : body.length = framedBodyLen f) {i : Nat}
    (hi : ¬ InFramedFootprint f i) : byteAt (withBody f body) i = byteAt f i := by
  unfold InFramedFootprint at hi
  rw [withBody, byteAt_store_out (by simp only [List.length_cons, List.length_nil]; omega),
    byteAt_store_out (by omega)]

/-- Two frames that agree on the bytes in front of the body, apart from the UDP
checksum, have the same layout and the same headers. -/
structure SameHeaders (f g : Frame) : Prop where
  length : g.length = f.length
  bytes : ∀ i, i < framedBodyOff f → ¬ (udpOff f + 6 ≤ i ∧ i < udpOff f + 8) →
    byteAt g i = byteAt f i

theorem withBody_sameHeaders {body : List UInt8} (hlen : body.length = framedBodyLen f) :
    SameHeaders f (withBody f body) where
  length := length_withBody
  bytes i hi hc := byteAt_withBody hlen (by unfold InFramedFootprint; omega)

namespace SameHeaders

variable (h : SameHeaders f g)

include h

theorem byteAt_eth {i : Nat} (hi : i < udpOff f + 6) : byteAt g i = byteAt f i :=
  h.bytes i (by unfold framedBodyOff payloadOff; omega) (by omega)

theorem ipIhl : ipIhl g = ipIhl f := by
  unfold Ebaf.ipIhl
  rw [h.byteAt_eth (by unfold udpOff; omega)]

theorem udpOff : udpOff g = udpOff f := by unfold Ebaf.udpOff; rw [h.ipIhl]

theorem payloadOff : payloadOff g = payloadOff f := by unfold Ebaf.payloadOff; rw [h.udpOff]

theorem framedBodyOff : framedBodyOff g = framedBodyOff f := by
  unfold Ebaf.framedBodyOff; rw [h.payloadOff]

theorem be16_eq {i : Nat} (hi : i + 2 ≤ Ebaf.udpOff f + 6) : be16 g i = be16 f i :=
  be16_congr (h.byteAt_eth (by omega)) (h.byteAt_eth (by omega))

theorem udpLen : udpLen g = udpLen f := by
  unfold Ebaf.udpLen
  rw [h.udpOff, h.be16_eq (by omega)]

theorem payloadLen : payloadLen g = payloadLen f := by unfold Ebaf.payloadLen; rw [h.udpLen]

theorem framedBodyLen : framedBodyLen g = framedBodyLen f := by
  unfold Ebaf.framedBodyLen; rw [h.payloadLen]

theorem framedHeader : framedHeader g = framedHeader f := by
  unfold Ebaf.framedHeader
  rw [h.payloadOff]
  refine EbafCryptoHeader.read_congr fun i hi => h.bytes _ ?_ ?_
  · unfold Ebaf.framedBodyOff; omega
  · unfold Ebaf.payloadOff; omega

theorem framedIv : framedIv g = framedIv f :=
  congrArg EbafCryptoHeader.iv h.framedHeader

end SameHeaders

/-! ## The common end of the two programs -/

/-- `emit_crypto_event`, called with the pointers the program computed from the
frame `f` it checked. -/
def emitCryptoEvent (e : Env Ctx) (config : EbafCryptoConfig) (f : Frame) :
    PacketProg Ctx Unit := do
  let g ← packet
  let byte := fun i =>
    if framedBodyLen f ≤ i ∨ g.length < framedBodyOff f + i + 1 then none
    else some (byteAt g (framedBodyOff f + i))
  submitEvent e (cryptoEvent e config g (udpOff f) (payloadLen f) (framedBodyLen f) byte)

/-- What `emit_crypto_event` submits for a frame `f` that became `g`. -/
def framedEvent (e : Env Ctx) (config : EbafCryptoConfig) (f g : Frame) : EbafCryptoEvent :=
  cryptoEvent e config g (udpOff f) (payloadLen f) (framedBodyLen f) fun i =>
    if framedBodyLen f ≤ i ∨ g.length < framedBodyOff f + i + 1 then none
    else some (byteAt g (framedBodyOff f + i))

theorem ensures_emitCryptoEvent {e : Env Ctx} {config : EbafCryptoConfig} {s : PacketState Ctx}
    {Q : Unit → PacketState Ctx → Prop} {E : PacketState Ctx → Prop} :
    (emitCryptoEvent e config f).Ensures s Q E ↔
      Q () { s with events := s.events ++ submitted e (framedEvent e config f s.frame) } := by
  rw [emitCryptoEvent, Prog.ensures_bind, ensures_packet, framedEvent]
  exact ensures_submitEvent

/-- A write through a packet pointer. -/
def writePacket (off : Nat) (bs : List UInt8) : PacketProg Ctx Unit :=
  Prog.modify fun s => { s with frame := store s.frame off bs }

theorem ensures_writePacket {off : Nat} {bs : List UInt8} {s : PacketState Ctx}
    {Q : Unit → PacketState Ctx → Prop} {E : PacketState Ctx → Prop} :
    (writePacket off bs).Ensures s Q E ↔ Q () { s with frame := store s.frame off bs } :=
  Iff.rfl

/-- The two framed programs from saving the IV on, for the frame `f` that passed
their checks.  `dir` is the kfunc the configured action selects, if any; without
one `rc` is -1. -/
def framedCipher (K : CryptoKernel Ctx) (e : Env Ctx) (config : EbafCryptoConfig)
    (dir : Option Direction) (f : Frame) : PacketProg Ctx Unit := do
  -- the kfunc overwrites the IV in the packet, so it is saved first and restored
  let savedIv := load f (framedIvOff f) ebafCryptoIvBytes
  let (cryptoCtx, data, iv) ← cipherOperands e (framedBodyOff f) (framedBodyLen f) (framedIvOff f)
    fun _ => .cryptoFail
  let ok ← match dir with
    | some d => bpfCrypto K e d cryptoCtx data iv
    | none => pure false
  if ok then
    writePacket (udpOff f + 6) [0, 0]
    writePacket (framedIvOff f) savedIv
    statInc .packetsCryptoOk
    emitCryptoEvent e config f
  else
    statInc .packetsCryptoFail

/-- The body is handed to the cipher: the frame passes the program's checks
(`accepts`), the operands are ready and the action names a direction. -/
structure Handed (e : Env Ctx) (accepts : EbafCryptoConfig → Prop)
    (dir : EbafCryptoConfig → Option Direction) (config : EbafCryptoConfig) (c : Ctx)
    (d : Direction) : Prop where
  configured : e.config = some config
  accepted : accepts config
  keyed : Keyed e c
  selected : dir config = some d

/-- The call a framed program makes of the cipher. -/
def framedCall (f : Frame) (d : Direction) (c : Ctx) (ok : Bool) : CipherCall Ctx :=
  ⟨d, c, framedBody f, framedIv f, ok⟩

/-- **Everything a framed program can do with a packet**: refuse it, hand it to
a cipher that fails, or transform it. -/
inductive FramedEnd (K : CryptoKernel Ctx) (e : Env Ctx) (accepts : EbafCryptoConfig → Prop)
    (dir : EbafCryptoConfig → Option Direction) (s s' : PacketState Ctx) : Prop where
  | refused (h : ∀ config c d, ¬ Handed e accepts dir config c d) (hs : s.Refused s')
  | failed (config : EbafCryptoConfig) (c : Ctx) (d : Direction)
      (h : Handed e accepts dir config c d) (hcipher : e.fails .cipher = true)
      (hs : s' = { s.accounted .cryptoFail with
        cipherCalls := s.cipherCalls ++ [framedCall s.frame d c false] })
  | transformed (config : EbafCryptoConfig) (c : Ctx) (d : Direction)
      (h : Handed e accepts dir config c d) (hcipher : e.fails .cipher = false)
      (hs : s' = { s.accounted .cryptoOk with
        frame := framedCrypt K d c s.frame
        events := s.events ++
          submitted e (framedEvent e config s.frame (framedCrypt K d c s.frame))
        cipherCalls := s.cipherCalls ++ [framedCall s.frame d c true] })

section CommonEnd
variable {K : CryptoKernel Ctx} {e : Env Ctx} {accepts : EbafCryptoConfig → Prop}
  {dir : EbafCryptoConfig → Option Direction} {s : PacketState Ctx} {config : EbafCryptoConfig}

theorem FramedEnd.refuse_malformed {r : Counter} (hr : r.isReason = true)
    (h : ∀ config c d, ¬ Handed e accepts dir config c d) :
    (statReason r).Ensures s.seen (fun _ => FramedEnd K e accepts dir s)
      (FramedEnd K e accepts dir s) :=
  (Ebaf.refuse_malformed hr h).mono (fun _ _ h => .refused h.1 h.2) fun _ h => .refused h.1 h.2

theorem FramedEnd.refuse_passed (h : ∀ config c d, ¬ Handed e accepts dir config c d) :
    (statInc .packetsPassed).Ensures s.seen (fun _ => FramedEnd K e accepts dir s)
      (FramedEnd K e accepts dir s) :=
  (Ebaf.refuse_passed h).mono (fun _ _ h => .refused h.1 h.2) fun _ h => .refused h.1 h.2

theorem FramedEnd.refuse_cryptoFail (h : ∀ config c d, ¬ Handed e accepts dir config c d) :
    (statInc .packetsCryptoFail).Ensures s.seen (fun _ => FramedEnd K e accepts dir s)
      (FramedEnd K e accepts dir s) :=
  (Ebaf.refuse_cryptoFail h).mono (fun _ _ h => .refused h.1 h.2) fun _ h => .refused h.1 h.2

/-- Clearing the checksum and putting the saved IV back leaves the new body as
the only other change, whatever the cipher left in the IV. -/
theorem restore_iv (f : Frame) (body iv : List UInt8) (hiv : iv.length = ebafCryptoIvBytes) :
    store (store (store (store f (framedBodyOff f) body) (framedIvOff f) iv) (udpOff f + 6) [0, 0])
      (framedIvOff f) (load f (framedIvOff f) ebafCryptoIvBytes) = withBody f body := by
  have hoff : udpOff f + 6 + 2 ≤ framedIvOff f := by unfold framedIvOff payloadOff; omega
  have hbelow : framedIvOff f + ebafCryptoIvBytes ≤ framedBodyOff f := by
    unfold framedIvOff framedBodyOff ebafCryptoIvOffset ebafCryptoIvBytes EbafCryptoHeader.size
    omega
  have hsame : load f (framedIvOff f) ebafCryptoIvBytes =
      load (store f (framedBodyOff f) body) (framedIvOff f) ebafCryptoIvBytes :=
    (load_store_disjoint (by omega)).symm
  rw [store_comm (by simpa using Or.inl hoff), store_store_same (by simpa using hiv), hsame,
    store_load_self, withBody]

/-- **The common end of the two programs**, from a packet counted as seen whose
frame passed the checks. -/
theorem framedCipher_spec (hconfig : e.config = some config) (haccepts : accepts config)
    (hin : framedBodyOff s.frame + framedBodyLen s.frame ≤ s.frame.length) :
    (framedCipher K e config (dir config) s.frame).Ensures s.seen
      (fun _ => FramedEnd K e accepts dir s) (FramedEnd K e accepts dir s) := by
  have hiv : framedIvOff s.frame + ebafCryptoIvBytes ≤ s.frame.length := by
    unfold framedBodyOff EbafCryptoHeader.size at hin
    unfold framedIvOff ebafCryptoIvOffset ebafCryptoIvBytes
    omega
  unfold framedCipher
  have notReady := cipherOperands_spec (e := e) (s := s.seen) (fun _ => .cryptoFail)
    (fun _ => by simp) hin hiv
  refine .bind (notReady.mono (fun _ _ h => h) ?_) ?_
  · rintro s' ⟨hn, d, hd, rfl⟩
    exact .refused (fun _ c _ h => hn c h.keyed) ⟨d, hd, s.seen_count d⟩
  rintro ⟨c, data, iv⟩ s' ⟨rfl, keyed, hwindows⟩
  obtain ⟨rfl, rfl⟩ := Prod.mk.inj hwindows
  cases hd : dir config with
  | none =>
    -- no direction: `rc` stays -1 and no kfunc is called
    exact FramedEnd.refuse_cryptoFail fun _ _ _ h => by
      cases Option.some.inj (h.configured.symm.trans hconfig)
      cases h.selected.symm.trans hd
  | some d =>
    have handed : Handed e accepts dir config c d := ⟨hconfig, haccepts, keyed, hd⟩
    refine Prog.ensures_bind.mpr ?_
    cases hcipher : e.fails .cipher with
    | true =>
      refine (ensures_bpfCrypto_of_fails hcipher).mpr ?_
      simp only [Bool.false_eq_true, ite_false, ensures_statInc]
      exact .failed config c d handed hcipher (by
        rw [← s.seen_count .cryptoFail]
        rfl)
    | false =>
      refine (ensures_bpfCrypto_of_succeeds hcipher).mpr ?_
      simp only [ite_true, Prog.ensures_bind, ensures_writePacket, ensures_statInc,
        ensures_emitCryptoEvent, PacketState.seen_frame]
      have hframe := restore_iv s.frame (K.crypt d c (framedIv s.frame) (framedBody s.frame))
        (K.ivAfter d c (framedIv s.frame) (framedBody s.frame)) (by simp [framedIv])
      simp only [framedIv, framedBody] at hframe
      rw [hframe]
      exact .transformed config c d handed hcipher (by
        rw [← s.seen_count .cryptoOk]
        rfl)

end CommonEnd

end Ebaf
