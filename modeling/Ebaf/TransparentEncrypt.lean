import Ebaf.TransparentCipher
import Ebaf.SealedFrame

/-! # Encryption in transparent mode

A run with the action ENCRYPT grows the packet, calls the cipher and ends with
a sealed frame.  `EncryptEnd` lists everything it can do instead, stage by
stage.

The packet grows before the program knows whether a context is installed and
whether the calls that follow succeed, so most of these ends leave a frame that
is neither the received one nor a sealed one.
-/
namespace Ebaf
open ByteWindow EarlyExit

variable {Ctx : Type} {f : Frame} {port : UInt16} {iv : List UInt8}

/-! ## Growing the packet -/

/-- The packet grows. -/
structure CanGrow (e : Env Ctx) (f : Frame) : Prop where
  nonempty : payloadLen f ≠ 0
  small : payloadLen f ≤ ebafMaxTransparentPayload
  tail : e.fails .changeTail = false

/-- The calls that write padding, trailer and length fields succeed. -/
structure GrowCallsOk (e : Env Ctx) (f : Frame) : Prop where
  pad : ∀ i, i < padLen (payloadLen f) → e.fails (.padStore i) = false
  trailer : e.fails .trailerStore = false
  fields : FieldCallsOk e
  check : e.fails .udpCheckStore = false

/-- The packet was left on the way: it has grown, and is accounted for as
something else than transformed, with no cipher call and no event. -/
structure Stranded (s s' : PacketState Ctx) : Prop where
  length : s'.frame.length = s.frame.length + sealDelta s.frame
  stats : ∃ d : Disposition, d ≠ .cryptoOk ∧ s'.stats = (s.accounted d).stats
  events : s'.events = s.events
  calls : s'.cipherCalls = s.cipherCalls

variable {s : PacketState Ctx} {e : Env Ctx}

/-- Where growing the packet stops. -/
inductive GrowStop (e : Env Ctx) (s s' : PacketState Ctx) : Prop where
  | refused (hn : ¬ CanGrow e s.frame) (hs : s.Refused s')
  | stranded (hg : CanGrow e s.frame) (hn : ¬ GrowCallsOk e s.frame) (hs : Stranded s s')

/-- An exit before the packet grows. -/
theorem GrowStop.refuse (hn : ¬ CanGrow e s.frame) :
    (statReason .packetsBadLength).Ensures s.seen (fun _ => GrowStop e s) (GrowStop e s) :=
  (refuse_malformed rfl hn).mono (fun _ _ h => .refused h.1 h.2) fun _ h => .refused h.1 h.2

/-- An exit after that. -/
theorem GrowStop.strand {g : Frame} {r : Counter} (hr : r.isReason = true)
    (hg : CanGrow e s.frame) (hn : ¬ GrowCallsOk e s.frame)
    (hlen : g.length = s.frame.length + sealDelta s.frame) :
    (statReason r).Ensures { s.seen with frame := g } (fun _ => GrowStop e s) (GrowStop e s) :=
  ensures_statReason.mpr (.stranded hg hn
    ⟨hlen, ⟨.malformed r hr, by simp, s.seen_stats_count (.malformed r hr)⟩, rfl, rfl⟩)

theorem forall_lt_succ {P : Nat → Prop} {n : Nat} (h : ∀ i, i < n → P i) (hn : P n) :
    ∀ i, i < n + 1 → P i := by
  intro i hi
  rcases Nat.lt_succ_iff_lt_or_eq.mp hi with hlt | rfl
  · exact h i hlt
  · exact hn

/-- **The padding loop**: before round `i` the first `i` bytes of the padding are
written; the loop is left when a store fails. -/
theorem storePad_loop {off pad : Nat} {g : Frame} {E : PacketState Ctx → Prop} (hpad : pad ≤ 16)
    (hin : off + pad ≤ g.length)
    (hexit : ∀ i h, i < pad → e.fails (.padStore i) = true → h.length = g.length →
      (statReason .packetsBadUdp).Ensures { s with frame := h } (fun _ => E) E) :
    (Prog.forUpTo (storePad e off pad) 0 ebafCryptoBlockBytes).Ensures { s with frame := g }
      (fun _ s' => (∀ i, i < pad → e.fails (.padStore i) = false) ∧
        s' = { s with frame := store g off (List.replicate pad (UInt8.ofNat pad)) }) E := by
  let written (i : Nat) : List UInt8 := List.replicate (min i pad) (UInt8.ofNat pad)
  let inv (i : Nat) (s' : PacketState Ctx) : Prop :=
    (∀ j, j < min i pad → e.fails (.padStore j) = false) ∧
      s' = { s with frame := store g off (written i) }
  have hround : ∀ i s', inv i s' → (storePad e off pad i).Ensures s' (fun _ => inv (i + 1)) E := by
    rintro i s' ⟨hok, rfl⟩
    rw [storePad]
    split
    · -- the loop has ended
      rename_i hi
      have hmin : min (i + 1) pad = min i pad := by omega
      have hw : written (i + 1) = written i := by simp only [written, hmin]
      show inv (i + 1) _
      exact ⟨by rwa [hmin], by rw [hw]⟩
    · rename_i hi
      have hmin : min i pad = i := by omega
      have hmin' : min (i + 1) pad = i + 1 := by omega
      refine ensures_onSkb_last (fun hn => ?_) fun h hh => ?_
      · refine hexit i _ (Nat.not_le.mp hi) ((bpfSkbStoreBytes_eq_none ?_).mp hn) length_store
        simp only [length_store, List.length_cons, List.length_nil]
        omega
      · obtain ⟨hi', rfl⟩ := bpfSkbStoreBytes_eq_some hh
        show inv (i + 1) _
        simp only [inv, written, hmin, hmin'] at hok ⊢
        refine ⟨forall_lt_succ hok hi', ?_⟩
        have happ : store (store g off (List.replicate i (UInt8.ofNat pad)))
            (off + (List.replicate i (UInt8.ofNat pad)).length) [UInt8.ofNat pad] = _ :=
          store_store_append
        rw [List.length_replicate, ← List.replicate_succ'] at happ
        rw [happ]
  have hstart : inv 0 { s with frame := g } := by
    refine ⟨fun j hj => by omega, ?_⟩
    simp only [written, Nat.zero_min, List.replicate_zero, store_nil]
  refine (Prog.Ensures.forUpTo hround ebafCryptoBlockBytes 0 _ hstart).mono ?_ fun _ h => h
  rintro _ s' ⟨hok, rfl⟩
  have hmin : min (0 + ebafCryptoBlockBytes) pad = pad := by
    rw [ebafCryptoBlockBytes]
    omega
  rw [hmin] at hok
  exact ⟨hok, by simp only [written, hmin]⟩

/-- The lengths of the grown packet. -/
theorem updateLengths_withTrailer (hf : IsTransparent port f) (iv : List UInt8) :
    (updateLengths e ipOff (udpOff f) (sealDelta f) true).Ensures (withTrailer iv f)
      (fun _ g => FieldCallsOk e ∧ e.fails .udpCheckStore = false ∧ g = grownFrame iv f)
      (fun g => ¬ GrowCallsOk e f ∧ g.length = f.length + sealDelta f) := by
  obtain ⟨hip, hudp⟩ := grown_room hf iv
  refine (updateLengths_spec e ipOff (udpOff f) (sealDelta f) true hip hudp).mono ?_ ?_
  · rintro _ g ⟨⟨hfields, hcheck⟩, rfl⟩
    exact ⟨hfields.1, hcheck, rfl⟩
  · rintro g (⟨hn, hg⟩ | ⟨-, hcheck, rfl⟩)
    · exact ⟨fun hok => hn ⟨hok.fields, by simp⟩, by rw [hg.length, length_withTrailer]⟩
    · exact ⟨fun hok => by simp [hok.check] at hcheck, by simp⟩

/-- **Growing the packet**: the run falls through with the grown frame when the
packet grows and all calls succeed; it refuses the packet when it does not grow,
and strands it otherwise. -/
theorem transparentGrow_spec (hf : IsTransparent port s.frame) :
    (transparentGrow e s.frame).Ensures s.seen
      (fun job s' => CanGrow e s.frame ∧ GrowCallsOk e s.frame ∧
        job = ⟨sealedLen s.frame, fillIv e.ivClock, 0⟩ ∧
        s' = { s.seen with frame := grownFrame (fillIv e.ivClock) s.frame })
      (GrowStop e s) := by
  have hlen := hf.length_ge
  have hpay := hf.payloadOff
  have hudp := hf.udpOff
  have hdelta := payload_delta s.frame
  rw [transparentGrow]
  refine .check (fun h => .refuse fun hg => ?_) fun hsize => ?_
  · exact h.elim hg.nonempty (Nat.not_lt.mpr hg.small)
  refine ensures_onSkb (fun h => .refuse fun hg => ?_) fun g hg => ?_
  · exact absurd (bpfSkbChangeTail_eq_none.mp h) (by simp [hg.tail])
  obtain ⟨ktail, rfl⟩ := bpfSkbChangeTail_eq_some hg
  have grows : CanGrow e s.frame :=
    ⟨fun h => hsize (Or.inl h), Nat.not_lt.mp fun h => hsize (Or.inr h), ktail⟩
  -- the repeated checks pass
  have hin : payloadOff s.frame + sealedLen s.frame + EbafCryptoHeader.size ≤
      s.frame.length + sealDelta s.frame := by omega
  have hresized : SamePointers s.frame (resize s.frame (s.frame.length + sealDelta s.frame)) :=
    SamePointers.resize rfl (by rw [ipOff]; omega)
  refine (ensures_recheck hf hresized (by rw [length_resize]; exact hin)).mpr ?_
  refine .bind (storePad_loop (padLen_le _) ?_ fun i h hi hfail hh => ?_) fun _ s' hs' => ?_
  · rw [sealedLen] at hin
    rw [length_resize]
    exact Nat.le_trans (by omega) hin
  · exact .strand rfl grows (fun hok => by simp [hok.pad i hi] at hfail) (hh.trans length_resize)
  obtain ⟨kpad, rfl⟩ := hs'
  refine ensures_onSkb (fun h => ?_) fun g hg => ?_
  · have hfail := (bpfSkbStoreBytes_eq_none ?_).mp h
    · exact .strand rfl grows (fun hok => by simp [hok.trailer] at hfail) (by simp)
    · simpa using hin
  obtain ⟨ktrailer, hg⟩ := bpfSkbStoreBytes_eq_some hg
  obtain rfl : g = withTrailer (fillIv e.ivClock) s.frame := hg.trans withTrailer_eq.symm
  have hsame := withTrailer_samePointers hf (fillIv e.ivClock)
  refine (ensures_recheck hf hsame (by rw [length_withTrailer]; exact hin)).mpr ?_
  refine .bind (R := fun ok s' => (ok = true ∧ GrowCallsOk e s.frame ∧
      s' = { s.seen with frame := grownFrame (fillIv e.ivClock) s.frame }) ∨
    (ok = false ∧ ¬ GrowCallsOk e s.frame ∧ ∃ g : Frame,
      g.length = s.frame.length + sealDelta s.frame ∧ s' = { s.seen with frame := g }))
    (.attempt (updateLengths_withTrailer hf (fillIv e.ivClock)) ?_ ?_) ?_
  · rintro g ⟨hfields, hcheck, rfl⟩
    exact .inl ⟨rfl, ⟨kpad, ktrailer, hfields, hcheck⟩, rfl⟩
  · rintro g ⟨hn, hg⟩
    exact .inr ⟨rfl, hn, g, hg, rfl⟩
  rintro ok s' (⟨rfl, hok, rfl⟩ | ⟨rfl, hn, g, hg, rfl⟩)
  · refine .check (fun h => absurd h (by simp)) fun _ => ?_
    have hgrown : SamePointers s.frame (grownFrame (fillIv e.ivClock) s.frame) :=
      hsame.relength (Nat.le_refl _) (by rw [hudp, ipOff]; omega)
    refine (ensures_recheck hf hgrown (by rw [length_grownFrame]; exact hin)).mpr ?_
    exact ⟨grows, hok, rfl, rfl⟩
  · refine .check (fun _ => ?_) fun h => absurd rfl h
    exact .strand rfl grows hn hg

/-! ## The whole run -/

/-- Everything up to the cipher call succeeds: the frame is accepted, it grows,
and a context is installed. -/
structure ReadyToSeal (e : Env Ctx) (config : EbafCryptoConfig) (f : Frame) (c : Ctx) : Prop where
  accepted : TransparentAccepts f config
  grows : CanGrow e f
  calls : GrowCallsOk e f
  keyed : Keyed e c

/-- **Everything `tc_transparent` can do with a packet it is to encrypt.** -/
inductive EncryptEnd (K : CryptoKernel Ctx) (e : Env Ctx) (config : EbafCryptoConfig)
    (s s' : PacketState Ctx) : Prop where
  | refused (h : ¬ (TransparentAccepts s.frame config ∧ CanGrow e s.frame)) (hs : s.Refused s')
  | stranded (ha : TransparentAccepts s.frame config) (hg : CanGrow e s.frame)
      (hn : ∀ c, ¬ ReadyToSeal e config s.frame c) (hs : Stranded s s')
  | cipherFailed (c : Ctx) (h : ReadyToSeal e config s.frame c) (hcipher : e.fails .cipher = true)
      (hs : s' = { s with
        frame := grownFrame (fillIv e.ivClock) s.frame
        stats := s.stats.map doublyFailed
        cipherCalls := s.cipherCalls ++
          [⟨.encrypt, c, paddedPayload s.frame, fillIv e.ivClock, false⟩] })
  | ivLost (c : Ctx) (h : ReadyToSeal e config s.frame c) (hcipher : e.fails .cipher = false)
      (hiv : e.fails .ivStore = true) (hlen : s'.frame.length = s.frame.length + sealDelta s.frame)
      (hstats : s'.stats = (s.accounted (.malformed .packetsBadMagic rfl)).stats)
      (hevents : s'.events = s.events)
      (hcalls : s'.cipherCalls = s.cipherCalls ++
        [⟨.encrypt, c, paddedPayload s.frame, fillIv e.ivClock, true⟩])
  | sealed (c : Ctx) (h : ReadyToSeal e config s.frame c) (hcipher : e.fails .cipher = false)
      (hiv : e.fails .ivStore = false)
      (hs : s' = { s.accounted .cryptoOk with
        frame := sealFrame K c (fillIv e.ivClock) s.frame
        events := s.events ++ submitted e (transparentEvent e config (payloadLen s.frame)
          (sealedLen s.frame) (payloadOff s.frame) (sealFrame K c (fillIv e.ivClock) s.frame))
        cipherCalls := s.cipherCalls ++
          [⟨.encrypt, c, paddedPayload s.frame, fillIv e.ivClock, true⟩] })

/-- A whole number of blocks passes the check both directions make. -/
theorem transparentCheck_pass {config : EbafCryptoConfig} {job : TransparentJob}
    (hne : job.bodyLen ≠ 0) (haligned : job.bodyLen % 16 = 0)
    (hlen : config.action = ebafActionDecrypt → job.tailPayloadLen = job.bodyLen) :
    (transparentCheck config job : PacketProg Ctx Unit) = pure () := by
  have h1 : ¬ (job.bodyLen = 0 ∨ job.bodyLen &&& (ebafCryptoBlockBytes - 1) ≠ 0) := by
    rw [and_blockMask]
    exact fun h => h.elim hne fun h => h haligned
  have h2 : ¬ (config.action = ebafActionDecrypt ∧ job.tailPayloadLen ≠ job.bodyLen) :=
    fun h => h.2 (hlen h.1)
  rw [transparentCheck, Prog.exitIf_of_not h1, Prog.exitIf_of_not h2, pure_bind]

variable {K : CryptoKernel Ctx} {config : EbafCryptoConfig} {c : Ctx}

/-- With the IV put back, the ciphertext is all the cipher call has changed. -/
theorem cipheredFrame_grown (hf : IsTransparent port f) (henc : config.action = ebafActionEncrypt)
    (hiv : iv.length = ebafCryptoIvBytes) :
    cipheredFrame K config f ⟨sealedLen f, iv, 0⟩ c (grownFrame iv f) = sealFrame K c iv f := by
  have hdir : transparentDirection config = .encrypt := if_pos henc
  have hkept : load (store (grownFrame iv f) (payloadOff f) (K.crypt .encrypt c iv (paddedPayload f)))
      (payloadOff f + sealedLen f + ebafCryptoIvOffset) ebafCryptoIvBytes = iv := by
    rw [load_store_disjoint (Or.inr (by simp)), load_grownFrame_iv hf hiv]
  simp only [cipheredFrame, if_pos henc, hdir, cipherWrites, TransparentJob.ivOff,
    load_grownFrame_body hf, load_grownFrame_iv hf hiv]
  rw [store_store_same (K.length_ivAfter ..)]
  exact (congrArg (store _ _) hkept.symm).trans store_load_self

/-- The call that is made in a grown frame. -/
theorem transparentCall_grown (hf : IsTransparent port f)
    (hiv : iv.length = ebafCryptoIvBytes) {d : Direction} {ok : Bool} :
    transparentCall f ⟨sealedLen f, iv, 0⟩ (grownFrame iv f) d c ok =
      ⟨d, c, paddedPayload f, iv, ok⟩ := by
  simp only [transparentCall, TransparentJob.ivOff, load_grownFrame_body hf,
    load_grownFrame_iv hf hiv]

/-- The state a completed encryption leaves. -/
def sealedState (K : CryptoKernel Ctx) (e : Env Ctx) (config : EbafCryptoConfig) (c : Ctx)
    (s : PacketState Ctx) : PacketState Ctx :=
  { s.accounted .cryptoOk with
    frame := sealFrame K c (fillIv e.ivClock) s.frame
    events := s.events ++ submitted e (transparentEvent e config (payloadLen s.frame)
      (sealedLen s.frame) (payloadOff s.frame) (sealFrame K c (fillIv e.ivClock) s.frame))
    cipherCalls := s.cipherCalls ++
      [⟨.encrypt, c, paddedPayload s.frame, fillIv e.ivClock, true⟩] }

/-- Where the helpers succeed, an encryption that stops leaves the received frame or
the grown one. -/
def StopsGrown (e : Env Ctx) (s s' : PacketState Ctx) : Prop :=
  GrowCallsOk e s.frame → e.fails .ivStore = false →
    s'.frame = s.frame ∨
      CanGrow e s.frame ∧ s'.frame = grownFrame (fillIv e.ivClock) s.frame

/-- **A run for encryption falls through with a sealed frame**, or stops at one of
the other ends. -/
theorem tcTransparent_encrypt_ensures (hconfig : e.config = some config)
    (henc : config.action = ebafActionEncrypt) :
    (tcTransparent K e).Ensures s
      (fun _ s' => ∃ c, ReadyToSeal e config s.frame c ∧ e.fails .cipher = false ∧
        e.fails .ivStore = false ∧ s' = sealedState K e config c s)
      (fun s' => EncryptEnd K e config s s' ∧ StopsGrown e s s') := by
  refine .bind ((transparentParse_spec e s).mono (fun _ _ h => h) ?_) ?_
  · rintro s' ⟨hn, hs⟩
    exact ⟨.refused (fun h => hn config hconfig h.1) hs, fun _ _ => Or.inl hs.frame⟩
  rintro ⟨config', f⟩ s' ⟨rfl, rfl, hc, ha⟩
  obtain rfl : config = config' := Option.some.inj (hconfig.symm.trans hc)
  have hf : IsTransparent config.udpPort s.frame := ha.datagram
  have hdec : ¬ config.action = ebafActionDecrypt := fun h => encrypt_ne_decrypt (henc.symm.trans h)
  simp only [if_pos henc, if_neg hdec]
  refine .bind ((transparentGrow_spec hf).mono (fun _ _ h => h) ?_) ?_
  · rintro s' (⟨hn, hs⟩ | ⟨hg, hn, hs⟩)
    · exact ⟨.refused (fun h => hn h.2) hs, fun _ _ => Or.inl hs.frame⟩
    · exact ⟨.stranded ha hg (fun _ h => hn h.calls) hs, fun hcalls => absurd hcalls hn⟩
  rintro job s' ⟨hg, hcalls, rfl, rfl⟩
  have hne : sealedLen s.frame ≠ 0 := by
    have := padLen_pos (payloadLen s.frame)
    rw [sealedLen]
    omega
  rw [transparentCheck_pass hne (padded_aligned _) fun h => absurd h hdec, pure_bind, bind_pure]
  have hivLen : (fillIv e.ivClock).length = ebafCryptoIvBytes := length_fillIv _
  have hdir : transparentDirection config = .encrypt := if_pos henc
  have hsame : SamePointers s.frame (grownFrame (fillIv e.ivClock) s.frame) :=
    (withTrailer_samePointers hf _).relength (Nat.le_refl _) (by rw [hf.udpOff, ipOff]; omega)
  have hin : payloadOff s.frame + sealedLen s.frame + EbafCryptoHeader.size ≤
      (grownFrame (fillIv e.ivClock) s.frame).length := by
    have := hf.inside
    have := payload_delta s.frame
    rw [length_grownFrame]
    omega
  refine (transparentCipher_spec hf hsame hin fun _ => hivLen).mono ?_ ?_
  · rintro _ s' ⟨c, hk, hcipher, hiv, rfl⟩
    refine ⟨c, ⟨ha, hg, hcalls, hk⟩, hcipher, hiv henc, ?_⟩
    simp only [ciphered, cipheredFrame_grown hf henc hivLen, transparentCall_grown hf hivLen, hdir]
    rw [sealedState, ← s.seen_count .cryptoOk]
    rfl
  · rintro s' (⟨hn, d, hd, rfl⟩ | ⟨c, hk, hcipher, rfl⟩ | ⟨c, hk, hcipher, hiv, hlen, hst, hev, hcc⟩)
    · refine ⟨.stranded ha hg (fun c h => hn c h.keyed)
        ⟨length_grownFrame, ⟨d, hd, s.seen_stats_count d⟩, rfl, rfl⟩, fun _ _ => Or.inr ⟨hg, rfl⟩⟩
    · refine ⟨.cipherFailed c ⟨ha, hg, hcalls, hk⟩ hcipher ?_, fun _ _ => Or.inr ⟨hg, rfl⟩⟩
      simp only [transparentCall_grown hf hivLen, hdir, PacketState.seen, Option.map_map]
      rfl
    · refine ⟨.ivLost c ⟨ha, hg, hcalls, hk⟩ hcipher ?_ (hlen.trans length_grownFrame) ?_ hev ?_,
        fun _ hok => absurd (fun _ => hok) hiv⟩
      · exact Bool.not_eq_false _ ▸ fun h => hiv fun _ => h
      · exact hst.trans (s.seen_stats_count (.malformed .packetsBadMagic rfl))
      · rw [hcc, transparentCall_grown hf hivLen, hdir]
        rfl

/-- **The specification of `tc_transparent` for encryption.** -/
theorem tcTransparent_encrypt_spec (hconfig : e.config = some config)
    (henc : config.action = ebafActionEncrypt) :
    EncryptEnd K e config s ((tcTransparent K e).exec s) := by
  refine Prog.Ensures.exec ((tcTransparent_encrypt_ensures hconfig henc).mono ?_ fun _ h => h.1)
  rintro _ s' ⟨c, ready, hcipher, hiv, hs⟩
  exact .sealed c ready hcipher hiv hs

end Ebaf
