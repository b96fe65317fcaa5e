import Ebaf.FramedAgreement

/-! # Framed round trip

What one framed program encrypts, the other end decrypts, whichever of the two
programs stands at either end.  On framed datagrams (`FramedDatagram.crypt`)
this is the cipher's own law: the header, and with it the IV, survives the
transformation, so that the second call sees the context, IV and body the first
one left.  `framed_round_trip` says that the programs are that transformation:
the first one's output passes every check of the second.
-/
namespace Ebaf
open ByteWindow EarlyExit

variable {Ctx : Type} {K : CryptoKernel Ctx} {f g : Frame} {port : UInt16}

/-! ## On framed datagrams -/

/-- A frame with the headers of a framed datagram is one. -/
theorem IsFramed.of_sameHeaders (hf : IsFramed port f) (h : SameHeaders f g) :
    IsFramed port g := by
  have hudp : 34 ≤ udpOff f := by
    have := hf.ihl
    unfold udpOff ipOff
    omega
  constructor
  · rw [h.length]; exact hf.eth
  · rw [ethProto, h.be16_eq (by omega)]; exact hf.proto
  · rw [h.length]; exact hf.ip
  · rw [h.ipIhl]; exact hf.ihl
  · rw [h.length, h.udpOff]; exact hf.options
  · rw [ipProtocol, h.byteAt_eth (by unfold ipOff; omega)]; exact hf.udp
  · rw [h.length, h.udpOff]; exact hf.udpHeader
  · rw [udpDest, h.udpOff, h.be16_eq (by omega)]; exact hf.port
  · rw [h.udpLen]; exact hf.udpLen
  · rw [h.length, h.payloadOff, h.payloadLen]; exact hf.inside
  · rw [h.payloadLen]; exact hf.header
  · rw [h.framedHeader]; exact hf.magic
  · rw [h.framedHeader]; exact hf.version
  · rw [h.framedHeader, h.framedBodyLen]; exact hf.length
  · rw [h.framedBodyLen]; exact hf.body

theorem framedBody_length : (framedBody f).length = framedBodyLen f := length_load

theorem framedCrypt_sameHeaders (d : Direction) (c : Ctx) :
    SameHeaders f (framedCrypt K d c f) :=
  withBody_sameHeaders ((K.length_crypt ..).trans framedBody_length)

/-- The transformation of a framed datagram is a framed datagram. -/
def FramedDatagram.crypt (K : CryptoKernel Ctx) (d : Direction) (c : Ctx)
    (x : FramedDatagram port) : FramedDatagram port :=
  ⟨framedCrypt K d c x.1, x.2.of_sameHeaders (framedCrypt_sameHeaders d c)⟩

/-- The body written is the body read. -/
theorem framedBody_withBody {body : List UInt8} (hf : IsFramed port f)
    (hlen : body.length = framedBodyLen f) : framedBody (withBody f body) = body := by
  have h := withBody_sameHeaders hlen
  have hsep : udpOff f + 6 + 2 ≤ framedBodyOff f := by unfold framedBodyOff payloadOff; omega
  have hin := hf.body_inside
  rw [framedBody, h.framedBodyOff, h.framedBodyLen, withBody,
    load_store_disjoint (Or.inr (by simpa using hsep)), ← hlen,
    load_store_self (by omega)]

/-- The second of two new bodies hides the first. -/
theorem withBody_withBody {body body' : List UInt8} (hlen : body.length = framedBodyLen f)
    (hlen' : body'.length = framedBodyLen f) :
    withBody (withBody f body) body' = withBody f body' := by
  have h := withBody_sameHeaders hlen
  have hsep : udpOff f + 6 + 2 ≤ framedBodyOff f := by unfold framedBodyOff payloadOff; omega
  have hswap : store (store (store f (framedBodyOff f) body) (udpOff f + 6) [0, 0])
      (framedBodyOff f) body' =
        store (store (store f (framedBodyOff f) body) (framedBodyOff f) body') (udpOff f + 6) [0, 0] :=
    store_comm (Or.inl (by simpa using hsep))
  rw [withBody, h.framedBodyOff, h.udpOff, withBody, withBody, hswap,
    store_store_same (hlen.trans hlen'.symm), store_store_same rfl]

theorem withBody_framedBody : withBody f (framedBody f) = store f (udpOff f + 6) [0, 0] := by
  rw [withBody, framedBody, store_load_self]

/-- **Round trip on framed datagrams**: where the cipher's decryption inverts
its encryption, only the UDP checksum is not restored. -/
theorem FramedDatagram.decrypt_encrypt {c : Ctx} {ok : Nat → Prop} (hinv : K.Inverts c ok)
    (x : FramedDatagram port) (hok : ok (framedBodyLen x.1)) :
    ((x.crypt K .encrypt c).crypt K .decrypt c).1 = store x.1 (udpOff x.1 + 6) [0, 0] := by
  obtain ⟨f, hf⟩ := x
  have hlen : (K.crypt .encrypt c (framedIv f) (framedBody f)).length = framedBodyLen f :=
    (K.length_crypt ..).trans framedBody_length
  have h := withBody_sameHeaders hlen
  show framedCrypt K .decrypt c (framedCrypt K .encrypt c f) = _
  unfold framedCrypt
  rw [h.framedIv, framedBody_withBody hf hlen,
    hinv _ _ (by rw [framedBody_length]; exact hok),
    withBody_withBody hlen framedBody_length, withBody_framedBody]

/-! ## On the programs -/

/-- The two framed packet programs. -/
inductive FramedProgram where
  | xdp | tc
  deriving DecidableEq

namespace FramedProgram

def run (K : CryptoKernel Ctx) (e : Env Ctx) : FramedProgram → PacketProg Ctx Unit
  | xdp => xdpCrypto K e
  | tc => tcCrypto K e

/-- What a program requires of a frame and of the configuration. -/
def Accepts : FramedProgram → Frame → EbafCryptoConfig → Prop
  | xdp => XdpAccepts
  | tc => TcAccepts

def direction : FramedProgram → EbafCryptoConfig → Option Direction
  | xdp => xdpDirection
  | tc => tcDirection

theorem spec (p : FramedProgram) (K : CryptoKernel Ctx) (e : Env Ctx) (s : PacketState Ctx) :
    FramedEnd K e (p.Accepts s.frame) p.direction s ((p.run K e).exec s) := by
  cases p with
  | xdp => exact xdpCrypto_spec K e s
  | tc => exact tcCrypto_spec K e s

variable {p : FramedProgram} {config : EbafCryptoConfig}

theorem Accepts.framed (h : p.Accepts f config) : IsFramed config.udpPort f := by
  cases p with
  | xdp => exact XdpAccepts.framed h
  | tc => exact TcAccepts.framed h

theorem Accepts.aligned (h : p.Accepts f config) :
    config.algo = ebafAlgoCbcAes → framedBodyLen f % 16 = 0 := by
  cases p with
  | xdp => exact XdpAccepts.aligned h
  | tc => exact fun _ => TcAccepts.aligned h

theorem direction_encrypt (h : config.action = ebafActionEncrypt) :
    p.direction config = some .encrypt := by
  cases p <;> exact if_pos h

theorem direction_decrypt (h : config.action = ebafActionDecrypt) :
    p.direction config = some .decrypt := by
  have hne : config.action ≠ ebafActionEncrypt := by rw [h]; decide
  cases p with
  | xdp => exact (if_neg hne).trans (if_pos h)
  | tc => exact if_neg hne

end FramedProgram

section Ends
variable {e : Env Ctx} {accepts : EbafCryptoConfig → Prop}
  {dir : EbafCryptoConfig → Option Direction} {s s' : PacketState Ctx}
  {config : EbafCryptoConfig} {c : Ctx} {d : Direction}

/-- A packet can be handed to one cipher call only. -/
theorem Handed.unique (h : Handed e accepts dir config c d) {config' : EbafCryptoConfig} {c' : Ctx}
    {d' : Direction} (h' : Handed e accepts dir config' c' d') :
    config' = config ∧ c' = c ∧ d' = d := by
  obtain rfl := Option.some.inj (h.configured.symm.trans h'.configured)
  exact ⟨rfl, h.keyed.unique h'.keyed, Option.some.inj (h'.selected.symm.trans h.selected)⟩

/-- A transformed packet was handed to a cipher that succeeded. -/
theorem FramedEnd.handed_of_transformed (h : FramedEnd K e accepts dir s s')
    (ht : Transformed s s') :
    ∃ config c d, Handed e accepts dir config c d ∧ s'.frame = framedCrypt K d c s.frame := by
  obtain ⟨call, hcall, hok⟩ := ht
  cases h with
  | refused _ hs =>
    obtain ⟨d, _, rfl⟩ := hs
    simp [PacketState.accounted] at hcall
  | failed config c d _ _ hs =>
    subst hs
    have := List.append_cancel_left hcall
    obtain rfl := List.head_eq_of_cons_eq this
    cases hok
  | transformed config c d hd _ hs =>
    subst hs
    exact ⟨config, c, d, hd, rfl⟩

/-- Conversely, a body handed to a cipher that succeeds is transformed. -/
theorem FramedEnd.transformed_of_handed (h : FramedEnd K e accepts dir s s')
    (hd : Handed e accepts dir config c d) (hcipher : e.fails .cipher = false) :
    s' = { s.accounted .cryptoOk with
      frame := framedCrypt K d c s.frame
      events := s.events ++
        submitted e (framedEvent e config s.frame (framedCrypt K d c s.frame))
      cipherCalls := s.cipherCalls ++ [framedCall s.frame d c true] } := by
  cases h with
  | refused hn _ => exact absurd hd (hn config c d)
  | failed _ _ _ _ hf _ => exact absurd (hf.symm.trans hcipher) (by simp)
  | transformed config' c' d' hd' _ hs =>
    obtain ⟨rfl, rfl, rfl⟩ := hd.unique hd'
    exact hs

end Ends

namespace FramedProgram
variable {p q : FramedProgram} {e : Env Ctx} {s : PacketState Ctx} {config : EbafCryptoConfig}
  {c : Ctx}

/-- **What is sent.**  A transformed packet was a framed datagram, and its body
is encrypted now. -/
theorem sent (hconfig : e.config = some config) (henc : config.action = ebafActionEncrypt)
    (hkey : e.slot = some (some c)) (hsent : Transformed s ((p.run K e).exec s)) :
    p.Accepts s.frame config ∧ ((p.run K e).exec s).frame = framedCrypt K .encrypt c s.frame := by
  obtain ⟨config', c', d, handed, hframe⟩ := (p.spec K e s).handed_of_transformed hsent
  obtain rfl := Option.some.inj (hconfig.symm.trans handed.configured)
  obtain rfl : c = c' := Option.some.inj (Option.some.inj (hkey.symm.trans handed.keyed.installed))
  obtain rfl : d = .encrypt := Option.some.inj
    (handed.selected.symm.trans (direction_encrypt henc))
  exact ⟨handed.accepted, hframe⟩

/-- A framed datagram that a program takes. -/
structure Takes (q : FramedProgram) (config : EbafCryptoConfig) (g : Frame) : Prop where
  framed : IsFramed config.udpPort g
  aligned : config.algo = ebafAlgoCbcAes → framedBodyLen g % 16 = 0
  tc : q = .tc → config.algo = ebafAlgoCbcAes ∧ (framedHeader g).action = 1 ∧ ¬ isFragment g

/-- It is accepted with another body, too: a program looks at the headers only. -/
theorem Takes.accepts (h : q.Takes config g)
    (haction : config.action = ebafActionEncrypt ∨ config.action = ebafActionDecrypt)
    (same : SameHeaders g f) : q.Accepts f config := by
  have framed : IsFramed config.udpPort f := h.framed.of_sameHeaders same
  cases q with
  | xdp =>
    refine XdpAccepts.mk framed fun halgo => ?_
    rw [same.framedBodyLen]
    exact h.aligned halgo
  | tc =>
    obtain ⟨haes, hact, hwhole⟩ := h.tc rfl
    have hfrag : ipFragOff f = ipFragOff g := by
      have := h.framed.ihl
      exact same.be16_eq (by unfold udpOff ipOff; omega)
    have hwhole' : ¬ isFragment f := by
      rw [isFragment, hfrag]
      exact hwhole
    exact TcAccepts.mk framed hwhole' haction haes (by rw [same.framedHeader]; exact hact)
      (by rw [same.framedBodyLen]; exact h.aligned haes)

/-- **What is received.**  A datagram that was encrypted once is decrypted by a
program that takes it. -/
theorem received (hconfig : e.config = some config) (hdec : config.action = ebafActionDecrypt)
    (hkey : e.slot = some (some c)) (hready : DynptrsOk e) (hok : e.fails .cipher = false)
    (htakes : q.Takes config g) (hframe : s.frame = framedCrypt K .encrypt c g)
    (hinv : K.Inverts c fun n => config.algo = ebafAlgoCbcAes → n % 16 = 0) :
    Transformed s ((q.run K e).exec s) ∧
      ((q.run K e).exec s).stats = (s.accounted .cryptoOk).stats ∧
      ((q.run K e).exec s).frame = store g (udpOff g + 6) [0, 0] := by
  have same : SameHeaders g s.frame := by
    rw [hframe]
    exact framedCrypt_sameHeaders .encrypt c
  have handed : Handed e (q.Accepts s.frame) q.direction config c .decrypt :=
    ⟨hconfig, htakes.accepts (Or.inr hdec) same, ⟨hkey, hready⟩, direction_decrypt hdec⟩
  let x : FramedDatagram config.udpPort := ⟨g, htakes.framed⟩
  rw [(q.spec K e s).transformed_of_handed handed hok]
  refine ⟨⟨_, rfl, rfl⟩, rfl, ?_⟩
  show framedCrypt K .decrypt c s.frame = _
  rw [hframe]
  exact x.decrypt_encrypt hinv htakes.aligned

end FramedProgram

/-- **Framed round trip across hooks.**  What either framed program encrypts,
either framed program decrypts, for the same context and port: the second run
transforms the packet, too, counts it as such, and leaves the original frame
with the UDP checksum cleared. -/
theorem framed_round_trip (K : CryptoKernel Ctx) (p q : FramedProgram) (e₁ e₂ : Env Ctx)
    (s₁ s₂ : PacketState Ctx) (config₁ config₂ : EbafCryptoConfig) (c : Ctx)
    (hconfig₁ : e₁.config = some config₁) (hconfig₂ : e₂.config = some config₂)
    (henc : config₁.action = ebafActionEncrypt) (hdec : config₂.action = ebafActionDecrypt)
    (halgo : config₂.algo = config₁.algo) (hport : config₂.udpPort = config₁.udpPort)
    (hkey₁ : e₁.slot = some (some c)) (hkey₂ : e₂.slot = some (some c))
    (hcipher : config₁.algo = ebafAlgoCbcAes ∨
      config₁.algo = ebafAlgoChacha20 ∧ p = .xdp ∧ q = .xdp)
    (hinv : K.Inverts c fun n => config₁.algo = ebafAlgoCbcAes → n % 16 = 0)
    (htc : q = .tc → (framedHeader s₁.frame).action = 1 ∧ ¬ isFragment s₁.frame)
    (hready : DynptrsOk e₂) (hok : e₂.fails .cipher = false)
    (hsent : Transformed s₁ ((p.run K e₁).exec s₁))
    (hreceived : s₂.frame = ((p.run K e₁).exec s₁).frame) :
    Transformed s₂ ((q.run K e₂).exec s₂) ∧
      ((q.run K e₂).exec s₂).stats = (s₂.accounted .cryptoOk).stats ∧
      ((q.run K e₂).exec s₂).frame = store s₁.frame (udpOff s₁.frame + 6) [0, 0] := by
  obtain ⟨haccepts, hframe⟩ := p.sent hconfig₁ henc hkey₁ hsent
  have takes : q.Takes config₂ s₁.frame := by
    refine ⟨?_, ?_, fun hq => ?_⟩
    · rw [hport]
      exact haccepts.framed
    · rw [halgo]
      exact haccepts.aligned
    · have haes : config₁.algo = ebafAlgoCbcAes := hcipher.resolve_right fun h => by
        rw [hq] at h
        simp at h
      exact ⟨halgo.trans haes, htc hq⟩
  rw [← halgo] at hinv
  exact FramedProgram.received hconfig₂ hdec hkey₂ hready hok takes (hreceived.trans hframe) hinv

/-- A block encrypted by `xdp_crypto`, as it is received. -/
def sealedBlock : PacketState (List UInt8) :=
  entering ((FramedProgram.xdp.run (knownKernel _) knownSender).exec plainBlock).frame (some .zero)

/-- `tc_crypto` decrypts it. -/
theorem framed_round_trip_of_block :
    Transformed sealedBlock
        ((FramedProgram.tc.run (knownKernel _) knownReceiver).exec sealedBlock) ∧
      ((FramedProgram.tc.run (knownKernel _) knownReceiver).exec sealedBlock).stats =
        (sealedBlock.accounted .cryptoOk).stats ∧
      ((FramedProgram.tc.run (knownKernel _) knownReceiver).exec sealedBlock).frame =
        store plainBlock.frame (udpOff plainBlock.frame + 6) [0, 0] := by
  have framed : IsFramed 7777 (blockDatagram knownPlain) :=
    datagram_isFramed (by decide) rfl (by decide)
  have aligned : framedBodyLen (blockDatagram knownPlain) % 16 = 0 := by
    rw [blockDatagram, framedBodyLen_datagram (by decide)]
    decide
  have handed : Handed knownSender (FramedProgram.xdp.Accepts plainBlock.frame)
      FramedProgram.xdp.direction (knownConfig ebafActionEncrypt) knownKey .encrypt :=
    ⟨rfl, XdpAccepts.mk framed fun _ => aligned, ⟨rfl, by decide⟩, rfl⟩
  have sent : Transformed plainBlock
      ((FramedProgram.xdp.run (knownKernel _) knownSender).exec plainBlock) := by
    rw [(FramedProgram.xdp.spec (knownKernel _) knownSender _).transformed_of_handed handed rfl]
    exact ⟨_, rfl, rfl⟩
  have marked : (framedHeader (blockDatagram knownPlain)).action = 1 :=
    congrArg EbafCryptoHeader.action (framedHeader_datagram rfl)
  have received : sealedBlock.frame =
      ((FramedProgram.xdp.run (knownKernel _) knownSender).exec plainBlock).frame := by
    rw [sealedBlock, entering_frame]
  exact framed_round_trip (knownKernel _) .xdp .tc knownSender knownReceiver plainBlock sealedBlock
    (knownConfig ebafActionEncrypt) (knownConfig ebafActionDecrypt) knownKey rfl rfl rfl rfl rfl rfl
    rfl rfl (Or.inl rfl) knownKernel_inverts (fun _ => ⟨marked, not_isFragment_datagram⟩)
    (by decide) rfl sent received

end Ebaf
