import Ebaf.OpenedFrame

/-! # Decryption in transparent mode

A run with the action DECRYPT reads the trailer, calls the cipher, and then
judges the padding and cuts the packet.  By then the body is plaintext and the
packet is counted and reported as transformed.  `DecryptEnd` lists everything a
run can do.
-/
namespace Ebaf
open ByteWindow EarlyExit

variable {Ctx : Type} {K : CryptoKernel Ctx} {e : Env Ctx} {config : EbafCryptoConfig} {c : Ctx}
  {s : PacketState Ctx} {f : Frame} {port : UInt16}

/-- Everything up to the cipher call succeeds: the frame is accepted, it has a
trailer, and a context is installed. -/
structure ReadyToOpen (e : Env Ctx) (config : EbafCryptoConfig) (f : Frame) (c : Ctx) : Prop where
  accepted : TransparentAccepts f config
  trailer : HasTrailer f
  load : e.fails .trailerLoad = false
  keyed : Keyed e c

/-- The packet is cut: the padding is accepted and the calls succeed. -/
structure Trims (K : CryptoKernel Ctx) (e : Env Ctx) (c : Ctx) (f : Frame) : Prop where
  pad : PadOk K c f
  load : e.fails .padLoad = false
  tail : e.fails .changeTail = false

/-- The length fields are updated for the cut. -/
def Refields (K : CryptoKernel Ctx) (e : Env Ctx) (c : Ctx) (f : Frame) : Prop :=
  FieldCallsOk e ∧ openDelta K c f ≤ ipTotLen f ∧ openDelta K c f ≤ udpLen f

/-- The frames that are left when a deciphered packet is not opened: the padding
is not accepted or the packet cannot be cut; a length field cannot be updated;
the UDP checksum cannot be cleared. -/
inductive NotOpened (K : CryptoKernel Ctx) (e : Env Ctx) (c : Ctx) (f g : Frame) : Prop where
  | kept (hn : ¬ Trims K e c f) (hg : g = decipheredFrame K c f)
  | halfway (ht : Trims K e c f) (hn : ¬ Refields K e c f)
      (hg : Halfway ipOff (udpOff f) (cutFrame K c f) g)
  | unsummed (ht : Trims K e c f) (hr : Refields K e c f) (hcheck : e.fails .udpCheckStore = true)
      (hg : g = unsummedFrame K c f)

/-- A deciphered packet that is cut still holds the plaintext in front of its padding,
wherever the run ends. -/
def PlainLeft (K : CryptoKernel Ctx) (e : Env Ctx) (c : Ctx) (f g : Frame) : Prop :=
  Trims K e c f → load g (payloadOff f) (openedLen f - padByte K c f) =
    (plainBody K c f).take (openedLen f - padByte K c f)

/-- The state once the body is deciphered: counted as transformed and reported. -/
def deciphered (K : CryptoKernel Ctx) (e : Env Ctx) (config : EbafCryptoConfig) (c : Ctx)
    (s : PacketState Ctx) : PacketState Ctx :=
  { s.accounted .cryptoOk with
    frame := decipheredFrame K c s.frame
    events := s.events ++ submitted e (transparentEvent e config (payloadLen s.frame)
      (openedLen s.frame) (payloadOff s.frame) (decipheredFrame K c s.frame))
    cipherCalls := s.cipherCalls ++
      [⟨.decrypt, c, cipherBody s.frame, (tailHdr s.frame).iv, true⟩] }

/-- A packet that has been counted as transformed is counted once more, as
something else. -/
structure Undone (t t' : PacketState Ctx) : Prop where
  stats : ∃ d : Disposition, d ≠ .cryptoOk ∧ t'.stats = t.stats.map d.count
  events : t'.events = t.events
  calls : t'.cipherCalls = t.cipherCalls

/-! ## Reading the trailer -/

/-- The header read from the loaded bytes is the one in the frame. -/
theorem read_load {off : Nat} :
    EbafCryptoHeader.read (load f off EbafCryptoHeader.size) 0 = EbafCryptoHeader.read f off :=
  EbafCryptoHeader.read_congr fun i hi => by rw [Nat.zero_add, byteAt_load hi]

/-- The trailer is there and bears the marks. -/
def TrailerRead (e : Env Ctx) (f : Frame) : Prop :=
  EbafCryptoHeader.size ≤ payloadLen f ∧ (tailHdr f).magic = ebafCryptoMagic ∧
    (tailHdr f).version = ebafCryptoVersion ∧ e.fails .trailerLoad = false

theorem transparentTrailer_spec (hf : IsTransparent port s.frame) :
    (transparentTrailer e s.frame).Ensures s.seen
      (fun job s' => s' = s.seen ∧ TrailerRead e s.frame ∧ job.bodyLen = openedLen s.frame ∧
        job.tailPayloadLen = (tailHdr s.frame).payloadLen)
      (fun s' => ¬ TrailerRead e s.frame ∧ s.Refused s') := by
  have hin := hf.inside
  rw [transparentTrailer]
  refine .check (fun h => refuse_malformed rfl fun ht => ?_) fun hroom => ?_
  · exact absurd ht.1 (Nat.not_le.mpr h)
  have hsplit : openedLen s.frame + EbafCryptoHeader.size = payloadLen s.frame :=
    Nat.sub_add_cancel (Nat.not_lt.mp hroom)
  refine .check (fun h => ?_) fun _ => ?_
  · exact absurd h (by omega)
  refine .pointer (fun h => refuse_cryptoFail fun ht => ?_) fun bytes hbytes => ?_
  · have hfail := (bpfSkbLoadBytes_eq_none (by omega)).mp h
    simp [ht.2.2.2] at hfail
  obtain ⟨kload, rfl⟩ := bpfSkbLoadBytes_eq_some hbytes
  rw [read_load, ← tailHdr]
  refine .check (fun h => refuse_malformed rfl fun ht => ?_) fun hmarked => ?_
  · exact h.elim (fun hm => hm ht.2.1) fun hv => hv ht.2.2.1
  refine ⟨rfl, ⟨Nat.not_lt.mp hroom, ?_, ?_, kload⟩, rfl, rfl⟩
  · exact not_not.mp fun h => hmarked (Or.inl h)
  · exact not_not.mp fun h => hmarked (Or.inr h)

/-- What the check of the blocks and of the trailer's length asks of a job. -/
def JobOk (config : EbafCryptoConfig) (job : TransparentJob) : Prop :=
  job.bodyLen ≠ 0 ∧ job.bodyLen % 16 = 0 ∧
    (config.action = ebafActionDecrypt → job.tailPayloadLen = job.bodyLen)

theorem transparentCheck_spec {job : TransparentJob} :
    (transparentCheck config job).Ensures s.seen (fun _ s' => s' = s.seen ∧ JobOk config job)
      (fun s' => ¬ JobOk config job ∧ s.Refused s') := by
  rw [transparentCheck]
  refine .check (fun h => refuse_malformed rfl fun ht => ?_) fun hblocks => ?_
  · rw [and_blockMask] at h
    exact h.elim ht.1 fun h => h ht.2.1
  refine .lastCheck (fun h => refuse_malformed rfl fun ht => ?_) fun hlength => ?_
  · exact h.2 (ht.2.2 h.1)
  rw [and_blockMask] at hblocks
  refine ⟨rfl, fun h => hblocks (Or.inl h), ?_, fun hdec => ?_⟩
  · exact not_not.mp fun h => hblocks (Or.inr h)
  · exact not_not.mp fun h => hlength ⟨hdec, h⟩

/-! ## Cutting the packet -/

/-- The byte the program reads as the padding length. -/
theorem byteAt_padByte (hin : payloadOff f + openedLen f ≤ f.length) (hne : openedLen f ≠ 0) :
    byteAt (load (decipheredFrame K c f) (payloadOff f + openedLen f - 1) 1) 0 =
      byteAt (plainBody K c f) (openedLen f - 1) := by
  have hbyte : byteAt (load (decipheredFrame K c f) (payloadOff f) (openedLen f)) (openedLen f - 1) =
      byteAt (decipheredFrame K c f) (payloadOff f + (openedLen f - 1)) := byteAt_load (by omega)
  rw [load_decipheredFrame hin] at hbyte
  rw [hbyte, byteAt_load (by omega)]
  congr 1
  omega

/-- The lengths of the cut packet: `update_lengths` makes it the opened frame, and
wherever it stops, the plaintext is left alone. -/
theorem updateLengths_cutFrame (hf : IsTransparent port f) (ht : HasTrailer f)
    (trims : Trims K e c f) :
    (updateLengths e ipOff (udpOff f) (openDelta K c f) false).Ensures (cutFrame K c f)
      (fun _ g => Refields K e c f ∧ e.fails .udpCheckStore = false ∧ g = openFrame K c f)
      (fun g => NotOpened K e c f g ∧ PlainLeft K e c f g) := by
  have hin := hf.inside
  have hbody := ht.payloadLen_eq
  have hcut := openDelta_le hf ht trims.pad
  have hlen : (cutFrame K c f).length = f.length - openDelta K c f := length_cutFrame
  have hpay := hf.payloadOff
  have hudp := hf.udpOff
  have hlengths := updateLengths_spec (f := cutFrame K c f) e ipOff (udpOff f) (openDelta K c f)
    false (by rw [hudp, ipOff]; omega) (by rw [hlen, hudp]; omega)
  have hipLen : be16 (cutFrame K c f) (ipOff + 2) = ipTotLen f :=
    be16_cutFrame hf ht trims.pad (by rw [hpay, ipOff]; omega)
  have hudpLen : be16 (cutFrame K c f) (udpOff f + 4) = udpLen f :=
    be16_cutFrame hf ht trims.pad (by rw [hpay, hudp]; omega)
  have hiff : FieldsOk e ipOff (udpOff f) (openDelta K c f) false (cutFrame K c f) ↔
      Refields K e c f := by
    rw [FieldsOk, hipLen, hudpLen]
    exact ⟨fun h => ⟨h.1, h.2 rfl⟩, fun h => ⟨h.1, fun _ => h.2⟩⟩
  rw [hiff] at hlengths
  have hkeeps := updateLengths_keeps (f := cutFrame K c f) (n := openedLen f - padByte K c f) e
    ipOff (udpOff f) (openDelta K c f) false
    (show ipOff + 12 ≤ payloadOff f by rw [hpay, ipOff]; omega) (by rw [hpay, hudp])
  rw [load_cutFrame_body hf ht trims.pad] at hkeeps
  refine (hlengths.and hkeeps).mono ?_ ?_
  · rintro _ g ⟨⟨⟨hr, hcheck⟩, rfl⟩, -⟩
    exact ⟨hr, hcheck, rfl⟩
  · rintro g ⟨⟨hn, hg⟩ | ⟨hr, hcheck, rfl⟩, hplain⟩
    · exact ⟨.halfway trims hn hg, fun _ => hplain⟩
    · exact ⟨.unsummed trims hr hcheck rfl, fun _ => hplain⟩

/-- **Cutting the packet**: the run falls through with the opened frame, and
counts the packet once more otherwise. -/
theorem transparentTrim_spec {t : PacketState Ctx} (hf : IsTransparent port f) (ht : HasTrailer f)
    (hframe : t.frame = decipheredFrame K c f) :
    (transparentTrim e f (openedLen f)).Ensures t
      (fun _ t' => Trims K e c f ∧ Refields K e c f ∧ e.fails .udpCheckStore = false ∧
        t' = { t with frame := openFrame K c f })
      (fun t' => (NotOpened K e c f t'.frame ∧ PlainLeft K e c f t'.frame) ∧ Undone t t') := by
  have hin : payloadOff f + openedLen f ≤ f.length := by
    have := hf.inside
    have := ht.payloadLen_eq
    omega
  have keep : ∀ d : Disposition, d ≠ .cryptoOk → ¬ Trims K e c f →
      (NotOpened K e c f { t with stats := t.stats.map d.count }.frame ∧
        PlainLeft K e c f { t with stats := t.stats.map d.count }.frame) ∧
          Undone t { t with stats := t.stats.map d.count } :=
    fun d hd hn => ⟨⟨.kept hn hframe, fun ht => absurd ht hn⟩, ⟨d, hd, rfl⟩, rfl, rfl⟩
  refine Prog.ensures_bind.mpr (ensures_packet.mpr ?_)
  refine .pointer (fun h => ensures_statInc.mpr ?_) fun bytes hbytes => ?_
  · have hfail := (bpfSkbLoadBytes_eq_none ?_).mp h
    · exact keep .cryptoFail (by simp) fun hn => by simp [hn.load] at hfail
    · have := ht.nonempty
      rw [hframe, length_decipheredFrame]
      omega
  obtain ⟨kload, rfl⟩ := bpfSkbLoadBytes_eq_some hbytes
  rw [hframe, byteAt_padByte hin ht.nonempty]
  show Prog.Ensures (Prog.exitIf (padByte K c f < 1 ∨ ebafCryptoBlockBytes < padByte K c f ∨
    openedLen f < padByte K c f) _ >>= _) _ _ _
  refine .check (fun h => ensures_statReason.mpr ?_) fun hpad => ?_
  · refine keep (.malformed .packetsBadLength rfl) (by simp) fun hn => ?_
    have := hn.pad.pos
    have := hn.pad.block
    have := hn.pad.body
    omega
  have pad : PadOk K c f := ⟨by omega, by omega, by omega⟩
  refine ensures_onSkb (fun h => ensures_statInc.mpr ?_) fun g hg => ?_
  · refine keep .cryptoFail (by simp) fun hn => ?_
    exact absurd (bpfSkbChangeTail_eq_none.mp h) (by simp [hn.tail])
  obtain ⟨ktail, hg⟩ := bpfSkbChangeTail_eq_some hg
  have trims : Trims K e c f := ⟨pad, kload, ktail⟩
  obtain rfl : g = cutFrame K c f := by
    rw [hg, hframe, length_decipheredFrame]
    rfl
  have hcut := openDelta_le hf ht pad
  have hlen : (cutFrame K c f).length = f.length - openDelta K c f := length_cutFrame
  have hpay := hf.payloadOff
  refine (ensures_reparse hf (s := { t with frame := cutFrame K c f })
    (cutFrame_samePointers hf ht pad) (by dsimp only; omega)).mpr ?_
  refine .bind (R := fun ok t' => (ok = true ∧ Refields K e c f ∧ e.fails .udpCheckStore = false ∧
      t' = { t with frame := openFrame K c f }) ∨
    (ok = false ∧ ∃ g, (NotOpened K e c f g ∧ PlainLeft K e c f g) ∧ t' = { t with frame := g }))
    (.attempt (updateLengths_cutFrame hf ht trims) ?_ ?_) ?_
  · rintro g ⟨hr, hcheck, rfl⟩
    exact .inl ⟨rfl, hr, hcheck, rfl⟩
  · intro g hg
    exact .inr ⟨rfl, g, hg, rfl⟩
  rintro ok t' (⟨rfl, hr, hcheck, rfl⟩ | ⟨rfl, g, hg, rfl⟩)
  · exact .lastCheck (fun h => absurd h (by simp)) fun _ => ⟨trims, hr, hcheck, rfl⟩
  · refine .lastCheck (fun _ => ensures_statInc.mpr ?_) fun h => absurd rfl h
    exact ⟨hg, ⟨.cryptoFail, by simp, rfl⟩, rfl, rfl⟩

/-! ## The whole run -/

/-- **Everything `tc_transparent` can do with a packet it is to decrypt.** -/
inductive DecryptEnd (K : CryptoKernel Ctx) (e : Env Ctx) (config : EbafCryptoConfig)
    (s s' : PacketState Ctx) : Prop where
  | refused (h : ∀ c, ¬ ReadyToOpen e config s.frame c) (hs : s.Refused s')
  | cipherFailed (c : Ctx) (h : ReadyToOpen e config s.frame c) (hcipher : e.fails .cipher = true)
      (hs : s' = { s with
        stats := s.stats.map doublyFailed
        cipherCalls := s.cipherCalls ++
          [⟨.decrypt, c, cipherBody s.frame, (tailHdr s.frame).iv, false⟩] })
  | undone (c : Ctx) (h : ReadyToOpen e config s.frame c) (hcipher : e.fails .cipher = false)
      (hframe : NotOpened K e c s.frame s'.frame) (hs : Undone (deciphered K e config c s) s')
  | opened (c : Ctx) (h : ReadyToOpen e config s.frame c) (hcipher : e.fails .cipher = false)
      (ht : Trims K e c s.frame) (hr : Refields K e c s.frame)
      (hcheck : e.fails .udpCheckStore = false)
      (hs : s' = { deciphered K e config c s with frame := openFrame K c s.frame })

/-- Where a run for decryption stops: at one of the ends, with the plaintext left
where the packet was cut. -/
structure DecryptStop (K : CryptoKernel Ctx) (e : Env Ctx) (config : EbafCryptoConfig)
    (s s' : PacketState Ctx) : Prop where
  ended : DecryptEnd K e config s s'
  plain : ∀ c, ReadyToOpen e config s.frame c → e.fails .cipher = false →
    PlainLeft K e c s.frame s'.frame

/-- The call that is made for a trailed packet. -/
theorem transparentCall_trailed {job : TransparentJob} {ok : Bool}
    (hbody : job.bodyLen = openedLen f) :
    transparentCall f job f .decrypt c ok =
      ⟨.decrypt, c, cipherBody f, (tailHdr f).iv, ok⟩ := by
  simp only [transparentCall, TransparentJob.ivOff, hbody]
  rfl

/-- Decryption leaves the frame as the cipher call does. -/
theorem cipheredFrame_trailed {job : TransparentJob} (hdec : config.action = ebafActionDecrypt)
    (hbody : job.bodyLen = openedLen f) :
    cipheredFrame K config f job c f = decipheredFrame K c f := by
  have henc : ¬ config.action = ebafActionEncrypt := fun h => encrypt_ne_decrypt (h.symm.trans hdec)
  have hdir : transparentDirection config = .decrypt := if_neg henc
  rw [cipheredFrame, if_neg henc, hdir, TransparentJob.ivOff, hbody]
  rfl

/-- **A run for decryption falls through with an opened frame**, or stops at one of
the other ends. -/
theorem tcTransparent_decrypt_ensures (hconfig : e.config = some config)
    (hdec : config.action = ebafActionDecrypt) :
    (tcTransparent K e).Ensures s
      (fun _ s' => ∃ c, ReadyToOpen e config s.frame c ∧ e.fails .cipher = false ∧
        Trims K e c s.frame ∧ Refields K e c s.frame ∧ e.fails .udpCheckStore = false ∧
        s' = { deciphered K e config c s with frame := openFrame K c s.frame })
      (DecryptStop K e config s) := by
  have refused : ∀ {s' : PacketState Ctx}, (∀ c, ¬ ReadyToOpen e config s.frame c) →
      s.Refused s' → DecryptStop K e config s s' :=
    fun hn hs => ⟨.refused hn hs, fun c h => absurd h (hn c)⟩
  refine .bind ((transparentParse_spec e s).mono (fun _ _ h => h) ?_) ?_
  · rintro s' ⟨hn, hs⟩
    exact refused (fun c h => hn config hconfig h.accepted) hs
  rintro ⟨config', f⟩ s' ⟨rfl, rfl, hc, ha⟩
  obtain rfl : config = config' := Option.some.inj (hconfig.symm.trans hc)
  have hf : IsTransparent config.udpPort s.frame := ha.datagram
  have henc : ¬ config.action = ebafActionEncrypt := fun h => encrypt_ne_decrypt (h.symm.trans hdec)
  have hdir : transparentDirection config = .decrypt := if_neg henc
  simp only [if_neg henc, if_pos hdec]
  refine .bind ((transparentTrailer_spec hf).mono (fun _ _ h => h) ?_) ?_
  · rintro s' ⟨hn, hs⟩
    exact refused (fun c h => hn ⟨h.trailer.room, h.trailer.magic, h.trailer.version, h.load⟩) hs
  rintro job s' ⟨rfl, ⟨hroom, hmagic, hversion, kload⟩, hbody, htail⟩
  refine .bind (transparentCheck_spec.mono (fun _ _ h => h) ?_) ?_
  · rintro s' ⟨hn, hs⟩
    refine refused (fun c h => hn ?_) hs
    rw [JobOk, hbody, htail]
    exact ⟨h.trailer.nonempty, h.trailer.aligned, fun _ => h.trailer.length⟩
  rintro _ s' ⟨rfl, hjob⟩
  rw [JobOk, hbody, htail] at hjob
  have ht : HasTrailer s.frame :=
    ⟨hroom, hmagic, hversion, hjob.1, hjob.2.1, hjob.2.2 hdec⟩
  have hin :
      payloadOff s.frame + openedLen s.frame + EbafCryptoHeader.size ≤ s.seen.frame.length := by
    have := hf.inside
    have := ht.payloadLen_eq
    simp only [PacketState.seen_frame]
    omega
  -- the cipher call: the middle state is the deciphered packet, reported and counted
  refine .bind (R := fun _ t => ∃ c, Keyed e c ∧ e.fails .cipher = false ∧
    t = deciphered K e config c s) ?_ ?_
  · refine (transparentCipher_spec (t := s.seen) hf rfl (by rw [hbody]; exact hin)
      fun h => absurd h henc).mono ?_ ?_
    · rintro _ t ⟨c, hk, hcipher, -, rfl⟩
      refine ⟨c, hk, hcipher, ?_⟩
      simp only [ciphered, PacketState.seen_frame, hdir, cipheredFrame_trailed hdec hbody,
        transparentCall_trailed hbody]
      rw [hbody, deciphered, ← s.seen_count .cryptoOk]
      rfl
    · rintro s' (⟨hn, d, hd, rfl⟩ | ⟨c, hk, hcipher, rfl⟩ | ⟨c, hk, hcipher, hiv, -, -, -, -⟩)
      · exact refused (fun c h => hn c h.keyed) ⟨d, hd, s.seen_count d⟩
      · refine ⟨.cipherFailed c ⟨ha, ht, kload, hk⟩ hcipher ?_,
          fun _ _ hok => absurd (hcipher.symm.trans hok) (by simp)⟩
        simp only [hdir, PacketState.seen, Option.map_map, transparentCall_trailed hbody]
        rfl
      · -- decryption does not store the IV
        exact absurd (fun h => absurd h henc) hiv
  rintro _ t ⟨c, hk, hcipher, rfl⟩
  have ready : ReadyToOpen e config s.frame c := ⟨ha, ht, kload, hk⟩
  rw [hbody]
  refine (transparentTrim_spec (e := e) hf ht rfl).mono ?_ ?_
  · rintro _ t' ⟨trims, hr, hcheck, rfl⟩
    exact ⟨c, ready, hcipher, trims, hr, hcheck, rfl⟩
  · rintro t' ⟨⟨hframe, hplain⟩, hundone⟩
    refine ⟨.undone c ready hcipher hframe hundone, fun c' ready' _ => ?_⟩
    rwa [ready.keyed.unique ready'.keyed]

/-- **The specification of `tc_transparent` for decryption.** -/
theorem tcTransparent_decrypt_spec (hconfig : e.config = some config)
    (hdec : config.action = ebafActionDecrypt) :
    DecryptEnd K e config s ((tcTransparent K e).exec s) := by
  refine Prog.Ensures.exec ((tcTransparent_decrypt_ensures hconfig hdec).mono ?_
    fun _ h => h.ended)
  rintro _ s' ⟨c, ready, hcipher, trims, hr, hcheck, hs⟩
  exact .opened c ready hcipher trims hr hcheck hs

end Ebaf
