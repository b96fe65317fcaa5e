import Ebaf.FramedRoundTrip

/-! # What a framed program writes

A framed program writes to a frame only where it counts the packet as
transformed, and then only the UDP checksum and the body (`InFramedFootprint`).
All other ends, among them the cipher's failure, hand the frame on as it came.
-/
namespace Ebaf
open ByteWindow EarlyExit

variable {Ctx : Type} {K : CryptoKernel Ctx} {e : Env Ctx} {accepts : EbafCryptoConfig → Prop}
  {dir : EbafCryptoConfig → Option Direction} {s s' : PacketState Ctx}

/-- The state a transformed packet leaves. -/
def framedDone (K : CryptoKernel Ctx) (e : Env Ctx) (config : EbafCryptoConfig) (c : Ctx)
    (d : Direction) (s : PacketState Ctx) : PacketState Ctx :=
  { s.accounted .cryptoOk with
    frame := framedCrypt K d c s.frame
    events := s.events ++ submitted e (framedEvent e config s.frame (framedCrypt K d c s.frame))
    cipherCalls := s.cipherCalls ++ [framedCall s.frame d c true] }

/-- What is accounted for as transformed is counted. -/
theorem countedOk_of_accounted {st : EbafCryptoStats} (hst : s.stats = some st)
    (hs : s'.stats = (s.accounted .cryptoOk).stats) : CountedOk s s' := by
  refine ⟨st, st.account .cryptoOk, hst, ?_, rfl⟩
  rw [hs, PacketState.accounted, hst]
  rfl

/-- A packet counted as transformed was handed to a cipher that succeeded. -/
theorem FramedEnd.done_of_countedOk (h : FramedEnd K e accepts dir s s') (hc : CountedOk s s') :
    ∃ config c d, Handed e accepts dir config c d ∧ e.fails .cipher = false ∧
      s' = framedDone K e config c d s := by
  cases h with
  | refused _ hs =>
    obtain ⟨d, hd, rfl⟩ := hs
    exact absurd hc (not_countedOk hd rfl)
  | failed _ _ _ _ _ hs =>
    subst hs
    exact absurd hc (not_countedOk (d := .cryptoFail) (by simp) rfl)
  | transformed config c d hd hcipher hs => exact ⟨config, c, d, hd, hcipher, hs⟩

/-- Any other packet keeps its frame, and no event is submitted. -/
theorem FramedEnd.kept_of_not_countedOk (h : FramedEnd K e accepts dir s s')
    {st : EbafCryptoStats} (hst : s.stats = some st) (hn : ¬ CountedOk s s') :
    s'.frame = s.frame ∧ s'.events = s.events := by
  cases h with
  | refused _ hs =>
    obtain ⟨d, -, rfl⟩ := hs
    exact ⟨rfl, rfl⟩
  | failed _ _ _ _ _ hs =>
    subst hs
    exact ⟨rfl, rfl⟩
  | transformed _ _ _ _ _ hs =>
    subst hs
    exact absurd (countedOk_of_accounted hst rfl) hn

/-- The transformation keeps the length of the frame, what lies outside its
footprint, and with it the IV. -/
theorem framedCrypt_footprint {f : Frame} {port : UInt16} (hf : IsFramed port f) (d : Direction)
    (c : Ctx) :
    (framedCrypt K d c f).length = f.length ∧
      (∀ i, ¬ InFramedFootprint f i → byteAt (framedCrypt K d c f) i = byteAt f i) ∧
      be16 (framedCrypt K d c f) (udpOff f + 6) = 0 ∧
      load (framedCrypt K d c f) (framedIvOff f) ebafCryptoIvBytes = framedIv f := by
  have hlen : (K.crypt d c (framedIv f) (framedBody f)).length = framedBodyLen f :=
    (K.length_crypt ..).trans framedBody_length
  have hudp := hf.udpHeader
  refine ⟨length_withBody, fun i hi => byteAt_withBody hlen hi, ?_, ?_⟩
  · exact be16_store_be16Bytes (n := 0) (by rw [length_store]; omega) (by decide)
  · refine load_congr fun i hi => byteAt_withBody hlen ?_
    rw [ebafCryptoIvBytes] at hi
    unfold InFramedFootprint framedIvOff framedBodyOff payloadOff ebafCryptoIvOffset
      EbafCryptoHeader.size
    omega

/-- What a framed program may do to a frame: nothing unless the packet is counted
as transformed, and then only to the UDP checksum and the body. -/
structure FramedEffect (s s' : PacketState Ctx) : Prop where
  length : s'.frame.length = s.frame.length
  kept : ¬ CountedOk s s' → s'.frame = s.frame
  outside : CountedOk s s' →
    ∀ i, ¬ InFramedFootprint s.frame i → byteAt s'.frame i = byteAt s.frame i
  checksum : CountedOk s s' → be16 s'.frame (udpOff s.frame + 6) = 0
  iv : CountedOk s s' →
    load s'.frame (framedIvOff s.frame) ebafCryptoIvBytes = framedIv s.frame

/-- **The framed programs touch only what they must.**  On every frame, whatever
the kernel answers, the frame keeps its length.  It is handed on byte for byte
unless the packet is counted as transformed; when it is, nothing differs outside
the UDP checksum, which is 0 now, and the body, and the IV is the original one. -/
theorem FramedProgram.run_effect (p : FramedProgram) (K : CryptoKernel Ctx) (e : Env Ctx)
    (f : Frame) (st : EbafCryptoStats) :
    FramedEffect (entering f (some st)) ((p.run K e).exec (entering f (some st))) := by
  generalize hs : (entering f (some st) : PacketState Ctx) = s
  have hst : s.stats = some st := by rw [← hs]; rfl
  have hend := p.spec K e s
  generalize (p.run K e).exec s = s' at hend
  by_cases hc : CountedOk s s'
  · obtain ⟨config, c, d, hd, -, rfl⟩ := hend.done_of_countedOk hc
    obtain ⟨hlen, hout, hcheck, hiv⟩ :=
      framedCrypt_footprint (K := K) (FramedProgram.Accepts.framed hd.accepted) d c
    exact ⟨hlen, fun hn => absurd hc hn, fun _ => hout, fun _ => hcheck, fun _ => hiv⟩
  · obtain ⟨hframe, -⟩ := hend.kept_of_not_countedOk hst hc
    exact ⟨congrArg List.length hframe, fun _ => hframe, fun h => absurd h hc,
      fun h => absurd h hc, fun h => absurd h hc⟩

end Ebaf
