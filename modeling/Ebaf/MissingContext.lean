import Ebaf.Interface

/-! # The exits for a missing context

The lookups of the context are the only lines that count `packets_no_crypto_ctx`.
A program that finds a context leaves that counter as it is, whatever the packet
and however the run ends.
-/
namespace Ebaf
open ByteWindow EarlyExit

variable {Ctx : Type} {K : CryptoKernel Ctx} {e : Env Ctx} {c : Ctx} {n : Option UInt64}

/-- How often a missing context has been counted, where there are counters. -/
def noCtxCount (s : PacketState Ctx) : Option UInt64 := s.stats.map fun st => st .packetsNoCryptoCtx

/-- The run so far has not counted a missing context. -/
def NoCtxIs (n : Option UInt64) (s : PacketState Ctx) : Prop := noCtxCount s = n

/-! ## The lines that count something else, or nothing -/

theorem keeps_statInc {k : Counter} (hk : k ≠ .packetsNoCryptoCtx) :
    (statInc k : PacketProg Ctx Unit).Keeps (NoCtxIs n) := by
  refine Prog.keeps_modify ?_
  rintro ⟨f, st, ev, cc⟩ hs
  cases st with
  | none => exact hs
  | some st =>
    rw [NoCtxIs, noCtxCount, Option.map_some, Option.map_some,
      EbafCryptoStats.inc_of_ne (Ne.symm hk)]
    exact hs

theorem keeps_statReason {k : Counter} (hk : k ≠ .packetsNoCryptoCtx) :
    (statReason k : PacketProg Ctx Unit).Keeps (NoCtxIs n) :=
  (keeps_statInc (by decide)).bind fun _ => keeps_statInc hk

theorem keeps_packet : (packet : PacketProg Ctx Frame).Keeps (NoCtxIs n) := fun _ hs => hs

theorem keeps_onSkb {h : Frame → Option Frame} {k : PacketProg Ctx Unit}
    (hk : k.Keeps (NoCtxIs n)) : (onSkb h k).Keeps (NoCtxIs n) := by
  refine Prog.Keeps.tryModify ?_ hk
  intro s s' hs hs'
  obtain ⟨g, -, rfl⟩ := Option.map_eq_some_iff.mp hs'
  exact hs

theorem keeps_submitEvent {ev : EbafCryptoEvent} :
    (submitEvent e ev : PacketProg Ctx Unit).Keeps (NoCtxIs n) :=
  fun _ hs => ensures_submitEvent.mpr hs

theorem keeps_bpfCrypto {d : Direction} {body iv : Dynptr} :
    (bpfCrypto K e d c body iv).Keeps (NoCtxIs n) := by
  intro s hs
  cases hcipher : e.fails .cipher with
  | true => exact (ensures_bpfCrypto_of_fails hcipher).mpr hs
  | false => exact (ensures_bpfCrypto_of_succeeds hcipher).mpr hs

/-- The context is found, so the two exits for a missing one are not taken. -/
theorem keeps_cipherOperands (hslot : e.slot = some (some c)) {bodyOff bodyLen ivOff : Nat}
    {failed : HelperCall → Disposition}
    (hfailed : ∀ call, ((failed call).tally : PacketProg Ctx Unit).Keeps (NoCtxIs n)) :
    (cipherOperands e bodyOff bodyLen ivOff failed).Keeps (NoCtxIs n) := by
  unfold cipherOperands
  rw [hslot]
  refine .found (.found ?_)
  refine keeps_packet.bind fun f => ?_
  refine .pointer (hfailed _) fun pkt => ?_
  refine .pointer (hfailed _) fun body => ?_
  refine .pointer (hfailed _) fun body => ?_
  refine .pointer (hfailed _) fun iv => ?_
  exact .pointer (hfailed _) fun iv => Prog.keeps_pure

/-! ## The framed programs -/

theorem keeps_framedCipher (hslot : e.slot = some (some c)) {config : EbafCryptoConfig}
    {dir : Option Direction} {f : Frame} :
    (framedCipher K e config dir f).Keeps (NoCtxIs n) := by
  refine (keeps_cipherOperands hslot fun _ => keeps_statInc (by decide)).bind ?_
  rintro ⟨cryptoCtx, data, iv⟩
  have counted : (statInc .packetsCryptoFail : PacketProg Ctx Unit).Keeps (NoCtxIs n) :=
    keeps_statInc (by decide)
  cases dir with
  | none => exact counted
  | some d =>
    refine Prog.Keeps.bind keeps_bpfCrypto fun ok => ?_
    cases ok with
    | false => exact counted
    | true =>
      refine Prog.Keeps.bind (Prog.keeps_modify fun _ hs => hs) fun _ => ?_
      refine Prog.Keeps.bind (Prog.keeps_modify fun _ hs => hs) fun _ => ?_
      refine (keeps_statInc (by decide)).bind fun _ => ?_
      exact keeps_packet.bind fun g => keeps_submitEvent

theorem keeps_xdpCrypto (hslot : e.slot = some (some c)) :
    (xdpCrypto K e).Keeps (NoCtxIs n) := by
  refine (keeps_statInc (by decide)).bind fun _ => keeps_packet.bind fun f => ?_
  refine .check (keeps_statReason (by decide)) ?_
  refine .check (keeps_statInc (by decide)) ?_
  refine .check (keeps_statReason (by decide)) ?_
  refine .check (keeps_statReason (by decide)) ?_
  refine .check (keeps_statInc (by decide)) ?_
  refine .check (keeps_statReason (by decide)) ?_
  refine .pointer (keeps_statInc (by decide)) fun config => ?_
  refine .check (keeps_statInc (by decide)) ?_
  refine .check (keeps_statReason (by decide)) ?_
  refine .check (keeps_statReason (by decide)) ?_
  refine .check (keeps_statReason (by decide)) ?_
  refine .check (keeps_statReason (by decide)) ?_
  refine .check (keeps_statReason (by decide)) ?_
  refine .check (keeps_statReason (by decide)) ?_
  refine .check (keeps_statReason (by decide)) ?_
  refine .check (keeps_statReason (by decide)) ?_
  exact keeps_framedCipher hslot

theorem keeps_tcCrypto (hslot : e.slot = some (some c)) : (tcCrypto K e).Keeps (NoCtxIs n) := by
  refine (keeps_statInc (by decide)).bind fun _ => keeps_packet.bind fun f => ?_
  refine .check (keeps_statReason (by decide)) ?_
  refine .check (keeps_statInc (by decide)) ?_
  refine .check (keeps_statReason (by decide)) ?_
  refine .check (keeps_statReason (by decide)) ?_
  refine .check (keeps_statReason (by decide)) ?_
  refine .check (keeps_statInc (by decide)) ?_
  refine .check (keeps_statReason (by decide)) ?_
  refine .pointer (keeps_statInc (by decide)) fun config => ?_
  refine .check (keeps_statInc (by decide)) ?_
  refine .check (keeps_statInc (by decide)) ?_
  refine .check (keeps_statReason (by decide)) ?_
  refine .check (keeps_statReason (by decide)) ?_
  refine .check (keeps_statReason (by decide)) ?_
  refine .check (keeps_statReason (by decide)) ?_
  refine .check (keeps_statReason (by decide)) ?_
  refine .check (keeps_statReason (by decide)) ?_
  refine .check (keeps_statReason (by decide)) ?_
  refine .check (keeps_statReason (by decide)) ?_
  exact keeps_framedCipher hslot

/-! ## The transparent program -/

theorem keeps_reparse {badEth badIp badUdp : PacketProg Ctx Unit} (heth : badEth.Keeps (NoCtxIs n))
    (hip : badIp.Keeps (NoCtxIs n)) (hudp : badUdp.Keeps (NoCtxIs n)) :
    (reparse badEth badIp badUdp).Keeps (NoCtxIs n) := by
  refine keeps_packet.bind fun g => ?_
  exact .check heth (.check hip (.check hudp Prog.keeps_pure))

theorem keeps_updateLengths {ip udp delta : Nat} {add : Bool} :
    (Prog.attempt PacketState.frame (fun s g => { s with frame := g })
      (updateLengths e ip udp delta add) : PacketProg Ctx Bool).Keeps (NoCtxIs n) :=
  Prog.keeps_attempt fun _ _ hs => hs

theorem keeps_transparentParse : (transparentParse e).Keeps (NoCtxIs n) := by
  refine (keeps_statInc (by decide)).bind fun _ => keeps_packet.bind fun f => ?_
  refine .check (keeps_statReason (by decide)) ?_
  refine .check (keeps_statInc (by decide)) ?_
  refine .check (keeps_statReason (by decide)) ?_
  refine .check (keeps_statReason (by decide)) ?_
  refine .check (keeps_statReason (by decide)) ?_
  refine .check (keeps_statInc (by decide)) ?_
  refine .check (keeps_statReason (by decide)) ?_
  refine .pointer (keeps_statInc (by decide)) fun config => ?_
  refine .check (keeps_statInc (by decide)) ?_
  refine .check (keeps_statInc (by decide)) ?_
  refine .check (keeps_statReason (by decide)) ?_
  exact .check (keeps_statReason (by decide)) Prog.keeps_pure

theorem keeps_transparentGrow {f : Frame} : (transparentGrow e f).Keeps (NoCtxIs n) := by
  have reparsed : (reparse (pure ()) (pure ()) (pure ()) :
      PacketProg Ctx Frame).Keeps (NoCtxIs n) :=
    keeps_reparse Prog.keeps_pure Prog.keeps_pure Prog.keeps_pure
  refine .check (keeps_statReason (by decide)) ?_
  refine (keeps_onSkb (keeps_statReason (by decide))).bind fun _ => ?_
  refine (keeps_reparse (keeps_statReason (by decide)) (keeps_statReason (by decide))
    (keeps_statReason (by decide))).bind fun g => ?_
  refine .check (keeps_statReason (by decide)) ?_
  refine (Prog.Keeps.forUpTo (fun i => ?_) _ _).bind fun _ => ?_
  · rw [storePad]
    split
    · exact Prog.keeps_pure
    · exact keeps_onSkb (keeps_statReason (by decide))
  refine (keeps_onSkb (keeps_statReason (by decide))).bind fun _ => ?_
  refine reparsed.bind fun g => ?_
  refine .check Prog.keeps_pure ?_
  refine keeps_updateLengths.bind fun ok => ?_
  refine .check (keeps_statReason (by decide)) ?_
  refine reparsed.bind fun g => ?_
  exact .check Prog.keeps_pure Prog.keeps_pure

theorem keeps_transparentTrailer {f : Frame} : (transparentTrailer e f).Keeps (NoCtxIs n) := by
  refine .check (keeps_statReason (by decide)) ?_
  refine .check (keeps_statReason (by decide)) ?_
  refine .pointer (keeps_statInc (by decide)) fun bytes => ?_
  exact .check (keeps_statReason (by decide)) Prog.keeps_pure

theorem keeps_transparentCheck {config : EbafCryptoConfig} {job : TransparentJob} :
    (transparentCheck config job : PacketProg Ctx Unit).Keeps (NoCtxIs n) := by
  refine .check (keeps_statReason (by decide)) ?_
  exact (keeps_statReason (by decide)).exitIf

theorem keeps_transparentCipher (hslot : e.slot = some (some c)) {config : EbafCryptoConfig}
    {f : Frame} {job : TransparentJob} :
    (transparentCipher K e config f job).Keeps (NoCtxIs n) := by
  refine (keeps_cipherOperands hslot fun call => ?_).bind ?_
  · cases call <;> exact keeps_statReason (by decide)
  rintro ⟨cryptoCtx, body, iv⟩
  refine Prog.Keeps.bind keeps_bpfCrypto fun ok => ?_
  refine .check (keeps_statReason (by decide)) ?_
  have reported : (do
      statInc .packetsCryptoOk
      let g ← reparse (pure ()) (pure ()) (pure ())
      Prog.exitIf (g.length < payloadOff g + job.bodyLen) (pure ())
      emitEvent e config (payloadLen f) job.bodyLen (payloadOff f) :
        PacketProg Ctx Unit).Keeps (NoCtxIs n) := by
    refine (keeps_statInc (by decide)).bind fun _ => ?_
    refine (keeps_reparse Prog.keeps_pure Prog.keeps_pure Prog.keeps_pure).bind fun g => ?_
    refine .check Prog.keeps_pure ?_
    exact keeps_packet.bind fun g => keeps_submitEvent
  by_cases henc : config.action = ebafActionEncrypt
  · rw [if_pos henc]
    exact (keeps_onSkb (keeps_statReason (by decide))).bind fun _ => reported
  · rw [if_neg henc]
    exact reported

theorem keeps_transparentTrim {f : Frame} {bodyLen : Nat} :
    (transparentTrim e f bodyLen).Keeps (NoCtxIs n) := by
  refine keeps_packet.bind fun g => ?_
  refine .pointer (keeps_statInc (by decide)) fun padByte => ?_
  refine .check (keeps_statReason (by decide)) ?_
  refine (keeps_onSkb (keeps_statInc (by decide))).bind fun _ => ?_
  refine (keeps_reparse Prog.keeps_pure Prog.keeps_pure Prog.keeps_pure).bind fun _ => ?_
  refine keeps_updateLengths.bind fun ok => ?_
  exact (keeps_statInc (by decide)).exitIf

theorem keeps_tcTransparent (hslot : e.slot = some (some c)) :
    (tcTransparent K e).Keeps (NoCtxIs n) := by
  refine keeps_transparentParse.bind ?_
  rintro ⟨config, f⟩
  have rest : ∀ job, (do
      transparentCheck config job
      transparentCipher K e config f job
      if config.action = ebafActionDecrypt then
        transparentTrim e f job.bodyLen : PacketProg Ctx Unit).Keeps (NoCtxIs n) := by
    intro job
    refine keeps_transparentCheck.bind fun _ => ?_
    refine (keeps_transparentCipher hslot).bind fun _ => ?_
    split
    · exact keeps_transparentTrim
    · exact Prog.keeps_pure
  by_cases henc : config.action = ebafActionEncrypt
  · simp only [if_pos henc]
    exact keeps_transparentGrow.bind rest
  · simp only [if_neg henc]
    exact keeps_transparentTrailer.bind rest

/-- **A program that finds a context does not count a missing one.** -/
theorem PacketProgram.noCtxCount_run (p : PacketProgram) (K : CryptoKernel Ctx)
    (hslot : e.slot = some (some c)) (s : PacketState Ctx) :
    noCtxCount ((p.run K e).exec s) = noCtxCount s := by
  have hkeeps : (p.run K e).Keeps (NoCtxIs (noCtxCount s)) := by
    match p with
    | .framed .xdp => exact keeps_xdpCrypto hslot
    | .framed .tc => exact keeps_tcCrypto hslot
    | .transparent => exact keeps_tcTransparent hslot
  exact hkeeps.exec rfl

end Ebaf
