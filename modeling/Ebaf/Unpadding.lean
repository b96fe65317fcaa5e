import Ebaf.ChatScripts
import Ebaf.SealedFrame
import Ebaf.TrailedPayload
import Ebaf.TransparentDecrypt

/-! # Two ways to cut a padding off

`tc_transparent` cuts the padding off the body it has decrypted, and `unpad_body`
of the chat server off the body it is sent.  Both read the length of the padding
from the last byte.  The script compares the other bytes of the padding, too,
and the program does not, so they part at a body whose last byte is a length and
whose last bytes are no padding.
-/
namespace Ebaf
open ByteWindow BlockPadding EarlyExit

variable {Ctx : Type} {K : CryptoKernel Ctx} {e : Env Ctx} {config : EbafCryptoConfig} {c : Ctx}
  {s s' : PacketState Ctx} {f g : Frame} {body message : List UInt8}

/-! ## What the script accepts -/

/-- The last byte of the body is the length of a padding. -/
def PadInRange (body : List UInt8) : Prop :=
  1 ≤ lastByte body ∧ lastByte body ≤ ebafCryptoBlockBytes

/-- What encryption writes behind a payload is a padding. -/
theorem padding_eq_tail (n : Nat) : padding n = tail (padLen n) := rfl

/-- A body of whole blocks is padded in one way only: as encryption does it. -/
theorem padded_iff_append_padding (haligned : body.length % 16 = 0) :
    Padded ebafCryptoBlockBytes body message ↔ body = message ++ padding message.length := by
  constructor
  · rintro ⟨p, hpos, hp, rfl⟩
    rw [List.length_append, length_tail] at haligned
    have hpad : padLen message.length = p := by
      rw [ebafCryptoBlockBytes] at hp
      rw [padLen_eq]
      omega
    rw [padding_eq_tail, hpad]
  · intro h
    exact ⟨padLen message.length, padLen_pos _, padLen_le _, h⟩

/-- **The bodies `unpad_body` accepts**: the last byte is in range, and as many bytes
have its value. -/
theorem unpadBody_accepts_iff (hne : body ≠ []) (haligned : body.length % 16 = 0) :
    (∃ m, unpadBody body = .ok m) ↔ PadInRange body ∧ EndsInPadding body := by
  have hpos : 0 < body.length := List.length_pos_iff.mpr hne
  constructor
  · rintro ⟨m, hm⟩
    obtain ⟨⟨h1, h16, -, hends⟩, -⟩ := (padded_iff (by decide)).mp (unpadBody_eq_ok_iff.mp hm)
    exact ⟨⟨h1, h16⟩, hends⟩
  · rintro ⟨⟨h1, h16⟩, hends⟩
    have hle : lastByte body ≤ body.length := by
      rw [ebafCryptoBlockBytes] at h16
      omega
    exact ⟨_, unpadBody_eq_ok_iff.mpr ((padded_iff (by decide)).mpr ⟨⟨h1, h16, hle, hends⟩, rfl⟩)⟩

/-! ## What the program accepts -/

theorem lastByte_plainBody : lastByte (plainBody K c f) = padByte K c f := by
  rw [lastByte, length_plainBody]
  rfl

theorem plainBody_ne_nil (ht : HasTrailer f) : plainBody K c f ≠ [] := by
  intro h
  refine ht.nonempty ?_
  rw [← length_plainBody (K := K) (c := c), h, List.length_nil]

theorem plainBody_aligned (ht : HasTrailer f) : (plainBody K c f).length % 16 = 0 := by
  rw [length_plainBody]
  exact ht.aligned

/-- The program looks at the last byte only. -/
theorem padOk_iff (ht : HasTrailer f) : PadOk K c f ↔ PadInRange (plainBody K c f) := by
  rw [PadInRange, lastByte_plainBody]
  constructor
  · intro h
    exact ⟨h.pos, h.block⟩
  · rintro ⟨hpos, hblock⟩
    have hne := ht.nonempty
    have haligned := ht.aligned
    refine ⟨hpos, hblock, ?_⟩
    rw [ebafCryptoBlockBytes] at hblock
    omega

/-- The calls that read the last byte and shorten the packet succeed. -/
def CutCallsOk (e : Env Ctx) : Prop := e.fails .padLoad = false ∧ e.fails .changeTail = false

theorem trims_iff (ht : HasTrailer f) :
    Trims K e c f ↔ PadInRange (plainBody K c f) ∧ CutCallsOk e := by
  rw [← padOk_iff ht]
  constructor
  · intro h
    exact ⟨h.pad, h.load, h.tail⟩
  · rintro ⟨hpad, hload, htail⟩
    exact ⟨hpad, hload, htail⟩

/-! ## What is left of a deciphered packet -/

/-- The packet has been cut. -/
def Cut (s s' : PacketState Ctx) : Prop := s'.frame.length < s.frame.length

instance : Decidable (Cut s s') := inferInstanceAs (Decidable (_ < _))

/-- The part of the payload that has not been cut off. -/
def keptPayload (f g : Frame) : List UInt8 :=
  load g (payloadOff f) (payloadLen f - (f.length - g.length))

/-- How long a deciphered packet is in the end, and what it holds. -/
structure CutFor (K : CryptoKernel Ctx) (e : Env Ctx) (c : Ctx) (f g : Frame) : Prop where
  kept : ¬ Trims K e c f → g.length = f.length
  cut : Trims K e c f → g.length = f.length - openDelta K c f
  plain : PlainLeft K e c f g

theorem NotOpened.cutFor (h : NotOpened K e c f g) (hplain : PlainLeft K e c f g) :
    CutFor K e c f g := by
  cases h with
  | kept hn hg =>
    exact ⟨fun _ => by rw [hg, length_decipheredFrame], fun ht => absurd ht hn, hplain⟩
  | halfway ht _ hg =>
    exact ⟨fun hn => absurd ht hn, fun _ => by rw [hg.length, length_cutFrame], hplain⟩
  | unsummed ht _ _ hg =>
    exact ⟨fun hn => absurd ht hn, fun _ => by rw [hg, length_unsummedFrame], hplain⟩

/-- **A packet whose body has been deciphered** is cut by the padding and the trailer
when its padding is accepted, and then still holds the plaintext in front of them. -/
theorem tcTransparent_cutFor (hconfig : e.config = some config)
    (hdec : config.action = ebafActionDecrypt) (ready : ReadyToOpen e config s.frame c)
    (hcipher : e.fails .cipher = false) :
    CutFor K e c s.frame ((tcTransparent K e).exec s).frame := by
  refine Prog.Ensures.exec (E := fun s' => CutFor K e c s.frame s'.frame)
    ((tcTransparent_decrypt_ensures hconfig hdec).mono ?_ ?_)
  · rintro _ s' ⟨c', ready', -, trims, -, -, rfl⟩
    obtain rfl := ready.keyed.unique ready'.keyed
    have hf : IsTransparent config.udpPort s.frame := ready.accepted.datagram
    exact ⟨fun hn => absurd trims hn, fun _ => length_openFrame,
      fun _ => load_openFrame_body hf ready.trailer trims.pad⟩
  · rintro s' ⟨hend, hplain⟩
    cases hend with
    | refused h _ => exact absurd ready (h c)
    | cipherFailed _ _ hfail _ => exact absurd (hcipher.symm.trans hfail) (by simp)
    | undone c' ready' _ hframe _ =>
      obtain rfl := ready.keyed.unique ready'.keyed
      exact hframe.cutFor (hplain _ ready hcipher)
    | opened c' ready' _ trims _ _ hs =>
      obtain rfl := ready.keyed.unique ready'.keyed
      have hf : IsTransparent config.udpPort s.frame := ready.accepted.datagram
      refine ⟨fun hn => absurd trims hn, fun _ => ?_, hplain _ ready hcipher⟩
      rw [hs]
      exact length_openFrame

section Left
variable {port : UInt16} (hf : IsTransparent port f) (ht : HasTrailer f) (h : CutFor K e c f g)
include hf ht h

/-- A packet gets shorter exactly when its padding is cut off. -/
theorem CutFor.shorter_iff : g.length < f.length ↔ Trims K e c f := by
  by_cases trims : Trims K e c f
  · have hcut := openDelta_le hf ht trims.pad
    have hpos := openDelta_pos (K := K) (c := c) (f := f)
    rw [h.cut trims]
    exact ⟨fun _ => trims, fun _ => by omega⟩
  · rw [h.kept trims]
    exact ⟨fun hlt => absurd hlt (Nat.lt_irrefl _), fun ht => absurd ht trims⟩

/-- What is left of the payload is the plaintext without its padding. -/
theorem CutFor.keptPayload_eq (trims : Trims K e c f) : keptPayload f g =
    (plainBody K c f).take ((plainBody K c f).length - lastByte (plainBody K c f)) := by
  have hcut := openDelta_le hf ht trims.pad
  have hin := hf.inside
  have hpay := ht.payloadLen_eq
  have hlen : payloadLen f - (f.length - g.length) = openedLen f - padByte K c f := by
    have hdelta : openDelta K c f = padByte K c f + EbafCryptoHeader.size := rfl
    rw [h.cut trims]
    omega
  rw [lastByte_plainBody, length_plainBody, keptPayload, hlen]
  exact h.plain trims

end Left

/-! ## The two compared -/

/-- The program treats the decrypted body like the script: it cuts the padding off
when `unpad_body` accepts it, which is when it is one that encryption writes, and
leaves the same plaintext. -/
structure UnpadsAlike (K : CryptoKernel Ctx) (c : Ctx) (s s' : PacketState Ctx) : Prop where
  accepts : Cut s s' ↔ ∃ m, unpadBody (plainBody K c s.frame) = .ok m
  lastBytes : Cut s s' ↔
    PadInRange (plainBody K c s.frame) ∧ EndsInPadding (plainBody K c s.frame)
  written : Cut s s' ↔ ∃ m, plainBody K c s.frame = m ++ padding m.length
  plain : ∀ m, Cut s s' → unpadBody (plainBody K c s.frame) = .ok m →
    keptPayload s.frame s'.frame = m

/-- **The program and the script agree exactly on the bodies that end in the padding
their last byte announces**, and on those whose last byte announces none.  (When
the packet cannot be cut, they agree on what is no padding.) -/
theorem unpadding_agrees_iff (K : CryptoKernel Ctx) (e : Env Ctx) (config : EbafCryptoConfig)
    (c : Ctx) (s : PacketState Ctx) (hconfig : e.config = some config)
    (hdec : config.action = ebafActionDecrypt) (ready : ReadyToOpen e config s.frame c)
    (hcipher : e.fails .cipher = false) :
    UnpadsAlike K c s ((tcTransparent K e).exec s) ↔
      (PadInRange (plainBody K c s.frame) →
        (EndsInPadding (plainBody K c s.frame) ↔ CutCallsOk e)) := by
  have hf : IsTransparent config.udpPort s.frame := ready.accepted.datagram
  have ht := ready.trailer
  have left : CutFor K e c s.frame ((tcTransparent K e).exec s).frame :=
    tcTransparent_cutFor hconfig hdec ready hcipher
  have haligned := plainBody_aligned (K := K) (c := c) ht
  have hscript := unpadBody_accepts_iff (plainBody_ne_nil (K := K) (c := c) ht) haligned
  have hcut : Cut s ((tcTransparent K e).exec s) ↔
      PadInRange (plainBody K c s.frame) ∧ CutCallsOk e :=
    (left.shorter_iff hf ht).trans (trims_iff ht)
  constructor
  · rintro ⟨-, hlast, -, -⟩ hrange
    rw [hcut] at hlast
    constructor
    · intro hends
      exact (hlast.mpr ⟨hrange, hends⟩).2
    · intro hcalls
      exact (hlast.mp ⟨hrange, hcalls⟩).2
  · intro hcond
    have hlast : Cut s ((tcTransparent K e).exec s) ↔
        PadInRange (plainBody K c s.frame) ∧ EndsInPadding (plainBody K c s.frame) := by
      rw [hcut]
      exact and_congr_right fun hrange => (hcond hrange).symm
    refine ⟨hlast.trans hscript.symm, hlast, ?_, ?_⟩
    · refine (hlast.trans hscript.symm).trans (exists_congr fun m => ?_)
      rw [unpadBody_eq_ok_iff, padded_iff_append_padding haligned]
    · intro m hshort hm
      have trims : Trims K e c s.frame := (left.shorter_iff hf ht).mp hshort
      obtain ⟨-, hmessage⟩ := (padded_iff (by decide)).mp (unpadBody_eq_ok_iff.mp hm)
      rw [left.keptPayload_eq hf ht trims, hmessage]

/-- A trailed packet reaches the cipher. -/
theorem trailedPacket_readyToOpen {iv block : List UInt8}
    (hfits : Fits (trailedPayload iv block)) (hiv : iv.length = ebafCryptoIvBytes)
    (hne : block ≠ []) (haligned : block.length % 16 = 0) :
    ReadyToOpen knownReceiver (knownConfig ebafActionDecrypt) (trailedPacket iv block).frame
      knownKey := by
  refine ⟨⟨datagram_isTransparent hfits, rfl, Or.inr rfl⟩, ?_, rfl, rfl, by decide⟩
  exact datagram_hasTrailer hfits hiv hne haligned

/-- The encrypted payload `ping` is unpadded alike. -/
theorem unpadding_agrees_on_ping :
    UnpadsAlike (pingKernel _) knownKey (trailedPacket (fillIv 1000000000) pingCipher)
      ((tcTransparent (pingKernel _) knownReceiver).exec
        (trailedPacket (fillIv 1000000000) pingCipher)) := by
  refine (unpadding_agrees_iff _ _ (knownConfig ebafActionDecrypt) _ _ rfl rfl
    (trailedPacket_readyToOpen (by decide) (by decide) (by decide) (by decide)) rfl).mpr fun _ => ?_
  exact ⟨fun _ => ⟨rfl, rfl⟩, fun _ => by decide⟩

/-! ## A forged block

Under the key `knownKey` and the IV `knownIv`, `forgedCipher` is the encryption of
`forgedPlain`, which ends in a zero and a two. -/

def forgedPlain : List UInt8 :=
  [0x66, 0x6f, 0x72, 0x67, 0x65, 0x64, 0x20, 0x70, 0x61, 0x64, 0x64, 0x69, 0x6e, 0x67, 0x00, 0x02]

def forgedCipher : List UInt8 :=
  [0x9f, 0x5c, 0x18, 0xe0, 0x8d, 0xc7, 0xf6, 0xcb, 0x77, 0x4b, 0xbb, 0x7a, 0x9b, 0x12, 0xde, 0x69]

def forgedKernel (Ctx : Type) : CryptoKernel Ctx :=
  .knownAnswers Ctx [forgedPlain, forgedCipher] (n := 16) (by decide)

/-- The program cuts two bytes off the forged block, and the script raises an
exception. -/
theorem unpadding_differs_on_forged :
    ¬ UnpadsAlike (forgedKernel _) knownKey (trailedPacket knownIv forgedCipher)
        ((tcTransparent (forgedKernel _) knownReceiver).exec
          (trailedPacket knownIv forgedCipher)) ∧
      keptPayload (trailedPacket knownIv forgedCipher).frame
        ((tcTransparent (forgedKernel _) knownReceiver).exec
          (trailedPacket knownIv forgedCipher)).frame = forgedPlain.take 14 ∧
      unpadBody forgedPlain = .error (.valueError "bad padding bytes") := by
  refine ⟨fun h => ?_, by decide +kernel, by decide +kernel⟩
  have hcut : Cut (trailedPacket knownIv forgedCipher)
      ((tcTransparent (forgedKernel _) knownReceiver).exec
        (trailedPacket knownIv forgedCipher)) := by
    decide +kernel
  have hends : ¬ EndsInPadding (plainBody (forgedKernel _) knownKey
      (trailedPacket knownIv forgedCipher).frame) := by
    decide +kernel
  exact hends (h.lastBytes.mp hcut).2

end Ebaf
