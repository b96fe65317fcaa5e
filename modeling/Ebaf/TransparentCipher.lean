import Ebaf.TransparentDatagram

/-! # The lines both directions share

From the context lookup to the event, `transparentCipher` does the same for
both directions, except that encryption writes the IV back.  `CipherStop` lists
where it can return, and `ciphered` is the state it falls through with.
-/
namespace Ebaf
open ByteWindow EarlyExit

variable {Ctx : Type}

/-- The body and the IV window after a successful cipher call. -/
def cipherWrites (K : CryptoKernel Ctx) (d : Direction) (c : Ctx) (bodyOff bodyLen ivOff : Nat)
    (g : Frame) : Frame :=
  store (store g bodyOff (K.crypt d c (load g ivOff ebafCryptoIvBytes) (load g bodyOff bodyLen)))
    ivOff (K.ivAfter d c (load g ivOff ebafCryptoIvBytes) (load g bodyOff bodyLen))

@[simp] theorem length_cipherWrites {K : CryptoKernel Ctx} {d : Direction} {c : Ctx}
    {bodyOff bodyLen ivOff : Nat} {g : Frame} :
    (cipherWrites K d c bodyOff bodyLen ivOff g).length = g.length := by simp [cipherWrites]

/-- The IV window of a job. -/
def TransparentJob.ivOff (f : Frame) (job : TransparentJob) : Nat :=
  payloadOff f + job.bodyLen + ebafCryptoIvOffset

/-- The cipher call of a job in the frame `g`. -/
def transparentCall (f : Frame) (job : TransparentJob) (g : Frame) (d : Direction) (c : Ctx)
    (ok : Bool) : CipherCall Ctx :=
  ⟨d, c, load g (payloadOff f) job.bodyLen, load g (job.ivOff f) ebafCryptoIvBytes, ok⟩

/-- The event for the frame `g`. -/
def transparentEvent (e : Env Ctx) (config : EbafCryptoConfig) (payloadLen dataLen bodyOff : Nat)
    (g : Frame) : EbafCryptoEvent :=
  cryptoEvent e config g (udpOff g) payloadLen dataLen fun i =>
    if dataLen ≤ i then none
    else (bpfSkbLoadBytes e (.sampleLoad i) g (bodyOff + i) 1).map fun bs => byteAt bs 0

/-- The frame after the cipher call, and on encryption with the IV written back. -/
def cipheredFrame (K : CryptoKernel Ctx) (config : EbafCryptoConfig) (f : Frame)
    (job : TransparentJob) (c : Ctx) (g : Frame) : Frame :=
  let g := cipherWrites K (transparentDirection config) c (payloadOff f) job.bodyLen (job.ivOff f) g
  if config.action = ebafActionEncrypt then store g (job.ivOff f) job.iv else g

/-- The state after a transformed body was counted and reported. -/
def ciphered (K : CryptoKernel Ctx) (e : Env Ctx) (config : EbafCryptoConfig) (f : Frame)
    (job : TransparentJob) (c : Ctx) (t : PacketState Ctx) : PacketState Ctx :=
  let g := cipheredFrame K config f job c t.frame
  { frame := g
    stats := t.stats.map (EbafCryptoStats.inc .packetsCryptoOk)
    events := t.events ++
      submitted e (transparentEvent e config (payloadLen f) job.bodyLen (payloadOff f) g)
    cipherCalls := t.cipherCalls ++
      [transparentCall f job t.frame (transparentDirection config) c true] }

/-- The statistics of a packet for which the cipher fails: `stat_bad` with the
counter of failures as the reason. -/
def doublyFailed (st : EbafCryptoStats) : EbafCryptoStats :=
  (st.inc .packetsSeen).reason .packetsCryptoFail

theorem not_countedOk_of_doublyFailed {s s' : PacketState Ctx}
    (hs : s'.stats = s.stats.map doublyFailed) : ¬ CountedOk s s' := by
  rintro ⟨st, st', hst, hst', hinc⟩
  rw [hst, hst'] at hs
  obtain rfl : st' = doublyFailed st := Option.some.inj hs
  exact succ_ne _ hinc

/-- The IV can be written back, where it is. -/
def IvStoreOk (e : Env Ctx) (config : EbafCryptoConfig) : Prop :=
  config.action = ebafActionEncrypt → e.fails .ivStore = false

/-- Where `transparentCipher` returns: the operands are not ready, the cipher
fails, or the IV cannot be written back. -/
inductive CipherStop (e : Env Ctx) (config : EbafCryptoConfig) (f : Frame) (job : TransparentJob)
    (t t' : PacketState Ctx) : Prop where
  | unkeyed (hn : ∀ c, ¬ Keyed e c) (d : Disposition) (hd : d ≠ .cryptoOk)
      (ht : t' = { t with stats := t.stats.map d.count })
  | failed (c : Ctx) (hk : Keyed e c) (hcipher : e.fails .cipher = true)
      (ht : t' = { t with
        stats := t.stats.map (EbafCryptoStats.reason .packetsCryptoFail)
        cipherCalls := t.cipherCalls ++
          [transparentCall f job t.frame (transparentDirection config) c false] })
  | ivLost (c : Ctx) (hk : Keyed e c) (hcipher : e.fails .cipher = false)
      (hiv : ¬ IvStoreOk e config) (hlen : t'.frame.length = t.frame.length)
      (hstats : t'.stats = t.stats.map (EbafCryptoStats.reason .packetsBadMagic))
      (hevents : t'.events = t.events)
      (hcalls : t'.cipherCalls = t.cipherCalls ++
        [transparentCall f job t.frame (transparentDirection config) c true])

theorem encrypt_ne_decrypt : ebafActionEncrypt ≠ ebafActionDecrypt := by decide

theorem transparentFailed_ne (call : HelperCall) : transparentFailed call ≠ .cryptoOk := by
  cases call <;> simp [transparentFailed]

variable {K : CryptoKernel Ctx} {e : Env Ctx} {config : EbafCryptoConfig} {f : Frame}
  {job : TransparentJob} {port : UInt16} {t : PacketState Ctx}

theorem ensures_emitEvent {payloadLen dataLen bodyOff : Nat} {Q : Unit → PacketState Ctx → Prop}
    {E : PacketState Ctx → Prop} :
    (emitEvent e config payloadLen dataLen bodyOff).Ensures t Q E ↔
      Q () { t with
        events := t.events ++
          submitted e (transparentEvent e config payloadLen dataLen bodyOff t.frame) } := by
  rw [emitEvent, Prog.ensures_bind, ensures_packet]
  exact ensures_submitEvent

/-- From counting a transformed body on, every call succeeds. -/
theorem reported {u : PacketState Ctx} (hf : IsTransparent port f) (hp : SamePointers f u.frame)
    (hin : payloadOff f + job.bodyLen ≤ u.frame.length)
    {Q : Unit → PacketState Ctx → Prop} {E : PacketState Ctx → Prop}
    (hQ : Q () { u with
      stats := u.stats.map (EbafCryptoStats.inc .packetsCryptoOk)
      events := u.events ++ submitted e (transparentEvent e config (payloadLen f) job.bodyLen
        (payloadOff f) u.frame) }) :
    (do statInc .packetsCryptoOk
        let g ← reparse (pure ()) (pure ()) (pure ())
        Prog.exitIf (g.length < payloadOff g + job.bodyLen) (pure ())
        emitEvent e config (payloadLen f) job.bodyLen (payloadOff f)).Ensures u Q E := by
  refine Prog.ensures_bind.mpr (ensures_statInc.mpr ?_)
  refine (ensures_recheck (s := { u with stats := u.stats.map _ }) (m := 0) hf hp hin).mpr ?_
  exact ensures_emitEvent.mpr hQ

/-- **The lines both directions share**: with the windows inside the frame, a
run falls through in the state `ciphered` when all calls succeed, and returns at
one of the listed places otherwise. -/
theorem transparentCipher_spec (hf : IsTransparent port f) (hp : SamePointers f t.frame)
    (hin : payloadOff f + job.bodyLen + EbafCryptoHeader.size ≤ t.frame.length)
    (hiv : config.action = ebafActionEncrypt → job.iv.length = ebafCryptoIvBytes) :
    (transparentCipher K e config f job).Ensures t
      (fun _ t' => ∃ c, Keyed e c ∧ e.fails .cipher = false ∧ IvStoreOk e config ∧
        t' = ciphered K e config f job c t)
      (CipherStop e config f job t) := by
  have hivIn : job.ivOff f + ebafCryptoIvBytes ≤ t.frame.length := by
    rw [TransparentJob.ivOff, ebafCryptoIvOffset, ebafCryptoIvBytes]
    rw [EbafCryptoHeader.size] at hin
    omega
  have hbodyIn : payloadOff f + job.bodyLen ≤ t.frame.length := by omega
  refine .bind ((cipherOperands_spec _ transparentFailed_ne hbodyIn hivIn).mono (fun _ _ h => h) ?_) ?_
  · rintro t' ⟨hn, d, hd, rfl⟩
    exact .unkeyed hn d hd rfl
  rintro ⟨c, body, iv⟩ t' ⟨rfl, hk, hwindows⟩
  obtain ⟨rfl, rfl⟩ := Prod.mk.inj hwindows
  refine Prog.ensures_bind.mpr ?_
  rcases Bool.eq_false_or_eq_true (e.fails .cipher) with hcipher | hcipher
  · refine (ensures_bpfCrypto_of_fails hcipher).mpr ?_
    refine .check (fun _ => ensures_statReason.mpr ?_) fun h => absurd rfl h
    exact .failed c hk hcipher rfl
  · refine (ensures_bpfCrypto_of_succeeds hcipher).mpr ?_
    refine .check (fun h => absurd h (by simp)) fun _ => ?_
    have hsame : SamePointers f (cipherWrites K (transparentDirection config) c (payloadOff f)
        job.bodyLen (job.ivOff f) t'.frame) := by
      have hoff : ipOff < payloadOff f := by rw [hf.payloadOff, ipOff]; omega
      exact (hp.store hoff).store (by rw [TransparentJob.ivOff]; omega)
    by_cases hact : config.action = ebafActionEncrypt
    · simp only [if_pos hact]
      refine ensures_onSkb (fun hn => ensures_statReason.mpr ?_) fun g hg => ?_
      · refine .ivLost c hk hcipher (fun h => ?_) length_cipherWrites rfl rfl rfl
        have hfail := (bpfSkbStoreBytes_eq_none ?_).mp hn
        · simp [h hact] at hfail
        · rw [hiv hact]
          exact Nat.le_trans hivIn (Nat.le_of_eq length_cipherWrites.symm)
      · obtain ⟨hivOk, rfl⟩ := bpfSkbStoreBytes_eq_some hg
        refine reported hf (hsame.store ?_) ?_ ⟨c, hk, hcipher, fun _ => hivOk, ?_⟩
        · rw [hf.payloadOff, ipOff]; omega
        · simpa using hbodyIn
        · rw [ciphered, cipheredFrame, if_pos hact]
          rfl
    · simp only [if_neg hact]
      refine reported hf hsame ?_ ⟨c, hk, hcipher, fun h => absurd h hact, ?_⟩
      · simpa using hbodyIn
      · rw [ciphered, cipheredFrame, if_neg hact]
        rfl

end Ebaf
