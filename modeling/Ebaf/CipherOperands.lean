import Ebaf.Accounting

/-! # Getting ready for the cipher

All programs make the same calls between their checks and the cipher: look up
the context, then cut two dynptrs out of the packet, one for the body and one
for the IV.  They differ in how they count a packet for which a kfunc fails.
-/
namespace Ebaf
open EarlyExit

variable {Ctx : Type} {e : Env Ctx} {s : PacketState Ctx}

/-- `if (stats) stat_inc(..);` or `stat_reason(..);`, as the disposition says. -/
def Disposition.tally : Disposition → PacketProg Ctx Unit
  | .passed => statInc .packetsPassed
  | .cryptoOk => statInc .packetsCryptoOk
  | .cryptoFail => statInc .packetsCryptoFail
  | .malformed c _ => statReason c

theorem ensures_tally {d : Disposition} {Q : Unit → PacketState Ctx → Prop}
    {E : PacketState Ctx → Prop} :
    d.tally.Ensures s Q E ↔ Q () { s with stats := s.stats.map d.count } := by
  cases d with
  | passed | cryptoOk | cryptoFail => exact ensures_statInc
  | malformed c _ => exact ensures_statReason

/-- A context is installed and the dynptr kfuncs succeed. -/
structure Keyed (e : Env Ctx) (c : Ctx) : Prop where
  installed : e.slot = some (some c)
  dynptrs : DynptrsOk e

theorem Keyed.unique {c c' : Ctx} (h : Keyed e c) (h' : Keyed e c') : c' = c :=
  Option.some.inj (Option.some.inj (h'.installed.symm.trans h.installed))

/-- From the lookup of the context to the two dynptrs; `failed` tells how a
packet is counted for which a kfunc fails. -/
def cipherOperands (e : Env Ctx) (bodyOff bodyLen ivOff : Nat) (failed : HelperCall → Disposition) :
    PacketProg Ctx (Ctx × Dynptr × Dynptr) := do
  let slot ← Prog.orExit e.slot (statReason .packetsNoCryptoCtx)
  let cryptoCtx ← Prog.orExit slot (statReason .packetsNoCryptoCtx)
  let f ← packet
  let pkt ← Prog.orExit (bpfDynptrFrom e f) (failed .dynptrFrom).tally
  let body ← Prog.orExit (bpfDynptrClone e .cloneBody pkt) (failed .cloneBody).tally
  let body ← Prog.orExit (bpfDynptrAdjust e .adjustBody body bodyOff (bodyOff + bodyLen))
    (failed .adjustBody).tally
  let iv ← Prog.orExit (bpfDynptrClone e .cloneIv pkt) (failed .cloneIv).tally
  let iv ← Prog.orExit (bpfDynptrAdjust e .adjustIv iv ivOff (ivOff + ebafCryptoIvBytes))
    (failed .adjustIv).tally
  pure (cryptoCtx, body, iv)

/-- **The operands are the installed context and the two windows**, or nothing
happens but that the packet is counted. -/
theorem cipherOperands_spec {bodyOff bodyLen ivOff : Nat} (failed : HelperCall → Disposition)
    (hfailed : ∀ call, failed call ≠ .cryptoOk) (hbody : bodyOff + bodyLen ≤ s.frame.length)
    (hiv : ivOff + ebafCryptoIvBytes ≤ s.frame.length) :
    (cipherOperands e bodyOff bodyLen ivOff failed).Ensures s
      (fun o s' => s' = s ∧ Keyed e o.1 ∧ o.2 = (⟨bodyOff, bodyLen⟩, ⟨ivOff, ebafCryptoIvBytes⟩))
      (fun s' => (∀ c, ¬ Keyed e c) ∧
        ∃ d : Disposition, d ≠ .cryptoOk ∧ s' = { s with stats := s.stats.map d.count }) := by
  have noCtx : (∀ c, e.slot ≠ some (some c)) → (statReason .packetsNoCryptoCtx).Ensures s
      (fun _ s' => (∀ c, ¬ Keyed e c) ∧
        ∃ d : Disposition, d ≠ .cryptoOk ∧ s' = { s with stats := s.stats.map d.count })
      (fun s' => (∀ c, ¬ Keyed e c) ∧
        ∃ d : Disposition, d ≠ .cryptoOk ∧ s' = { s with stats := s.stats.map d.count }) :=
    fun hn => ensures_statReason.mpr ⟨fun c h => hn c h.installed,
      .malformed .packetsNoCryptoCtx rfl, by simp, rfl⟩
  have notReady : ∀ call, ¬ DynptrsOk e → (failed call).tally.Ensures s
      (fun _ s' => (∀ c, ¬ Keyed e c) ∧
        ∃ d : Disposition, d ≠ .cryptoOk ∧ s' = { s with stats := s.stats.map d.count })
      (fun s' => (∀ c, ¬ Keyed e c) ∧
        ∃ d : Disposition, d ≠ .cryptoOk ∧ s' = { s with stats := s.stats.map d.count }) :=
    fun call hn => ensures_tally.mpr ⟨fun c h => hn h.dynptrs, failed call, hfailed call, rfl⟩
  unfold cipherOperands
  refine .pointer (fun hslot => noCtx fun c h => by simp [hslot] at h) fun slot hslot => ?_
  refine .pointer (fun hctx => noCtx fun c h => by simp [hslot, hctx] at h) fun c hctx => ?_
  subst hctx
  refine Prog.ensures_bind.mpr (ensures_packet.mpr ?_)
  refine .pointer (fun h1 => notReady _ fun h => ?_) fun pkt h1 => ?_
  · simp [bpfDynptrFrom_eq_none.mp h1, DynptrsOk] at h
  obtain ⟨k1, rfl⟩ := bpfDynptrFrom_eq_some.mp h1
  refine .pointer (fun h2 => notReady _ fun h => ?_) fun data h2 => ?_
  · simp [bpfDynptrClone_eq_none.mp h2, DynptrsOk] at h
  obtain ⟨k2, rfl⟩ := bpfDynptrClone_eq_some.mp h2
  refine .pointer (fun h3 => notReady _ fun h => ?_) fun data h3 => ?_
  · simp [(bpfDynptrAdjust_eq_none (by omega) hbody).mp h3, DynptrsOk] at h
  obtain ⟨k3, rfl⟩ := bpfDynptrAdjust_eq_some h3
  refine .pointer (fun h4 => notReady _ fun h => ?_) fun iv h4 => ?_
  · simp [bpfDynptrClone_eq_none.mp h4, DynptrsOk] at h
  obtain ⟨k4, rfl⟩ := bpfDynptrClone_eq_some.mp h4
  refine .pointer (fun h5 => notReady _ fun h => ?_) fun iv h5 => ?_
  · simp [(bpfDynptrAdjust_eq_none (by omega) hiv).mp h5, DynptrsOk] at h
  obtain ⟨k5, rfl⟩ := bpfDynptrAdjust_eq_some h5
  refine ⟨rfl, ⟨hslot, k1, k2, k3, k4, k5⟩, ?_⟩
  simp only [Nat.zero_add, Nat.add_sub_cancel_left]

end Ebaf
