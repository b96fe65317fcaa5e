import Ebaf.TransparentEncrypt
import Ebaf.TransparentDecrypt
import Ebaf.TrailedPayload

/-! # Atomicity in transparent mode

A packet program should transform a packet or hand it on as it came.
`tc_transparent` does neither when something fails after its first change of the
packet.  The two theorems say for which packets, configurations, contexts and
failing calls it does.
-/
namespace Ebaf
open ByteWindow EarlyExit

variable {Ctx : Type}

/-! ## Encryption -/

/-- A packet was encrypted under the context `c`: the padded payload is replaced
by its ciphertext, the trailer with the IV follows it, the length fields have
grown by as much as the packet, and the packet is counted. -/
structure EncryptCompleted (K : CryptoKernel Ctx) (c : Ctx) (iv : List UInt8)
    (s s' : PacketState Ctx) : Prop where
  body : load s'.frame (payloadOff s.frame) (sealedLen s.frame) =
    K.crypt .encrypt c iv (paddedPayload s.frame)
  trailer : EbafCryptoHeader.read s'.frame (payloadOff s.frame + sealedLen s.frame) =
    newHdr (sealedLen s.frame) iv
  grown : s'.frame.length = s.frame.length + sealDelta s.frame
  ipLen : ipTotLen s'.frame = ipTotLen s.frame + sealDelta s.frame
  udpLen : udpLen s'.frame = udpLen s.frame + sealDelta s.frame
  counted : CountedOk s s'

section
variable {K : CryptoKernel Ctx} {e : Env Ctx} {config : EbafCryptoConfig} {c : Ctx}
  {s s' : PacketState Ctx}

/-- A sealed frame is a completed encryption, when the total length has not
wrapped. -/
theorem encryptCompleted_of_sealed (h : ReadyToSeal e config s.frame c) {st : EbafCryptoStats}
    (hst : s.stats = some st) (hfits : ipTotLen s.frame + sealDelta s.frame < 65536)
    (hframe : s'.frame = sealFrame K c (fillIv e.ivClock) s.frame)
    (hstats : s'.stats = (s.accounted .cryptoOk).stats) :
    EncryptCompleted K c (fillIv e.ivClock) s s' := by
  have hf : IsTransparent config.udpPort s.frame := h.accepted.datagram
  refine ⟨?_, ?_, ?_, ?_, ?_, st, st.account .cryptoOk, hst, ?_, rfl⟩
  · rw [hframe, load_sealFrame_body hf]
  · rw [hframe, read_sealFrame hf (length_fillIv _)]
  · rw [hframe, length_sealFrame]
  · rw [hframe, ipTotLen_sealFrame hf, Nat.mod_eq_of_lt hfits]
  · rw [hframe, udpLen_sealFrame hf h.grows.small]
  · rw [hstats, PacketState.accounted, hst]
    rfl

/-- A packet that has grown is not the received one, so it has to be counted. -/
theorem grown_ne (hlen : s'.frame.length = s.frame.length + sealDelta s.frame) :
    s'.frame ≠ s.frame := by
  intro heq
  have := sealDelta_pos s.frame
  rw [heq] at hlen
  omega

theorem not_atomic_of_uncounted (hlen : s'.frame.length = s.frame.length + sealDelta s.frame)
    (hn : ¬ CountedOk s s') :
    ¬ ((∃ c iv, e.slot = some (some c) ∧ EncryptCompleted K c iv s s') ∨ s'.frame = s.frame) := by
  rintro (⟨c, iv, -, hc⟩ | heq)
  · exact hn hc.counted
  · exact grown_ne hlen heq

/-- A sealed frame that is counted as a completed encryption had room for the
growth. -/
theorem fits_of_encryptCompleted {iv : List UInt8} (hc : EncryptCompleted K c iv s s') :
    ipTotLen s.frame + sealDelta s.frame < 65536 ∧ s.stats.isSome = true := by
  constructor
  · rw [← hc.ipLen]
    exact be16_lt
  · obtain ⟨st, -, hst, -⟩ := hc.counted
    rw [hst]
    rfl

end

/-- **When encryption is atomic.**  A packet to be encrypted is either encrypted
completely or handed on byte for byte, exactly when the following holds: if the
packet grows at all, then every later call succeeds, a context is installed, the
total length has room for the growth, and there is an entry to count in. -/
theorem tcTransparent_encrypt_atomic_iff (K : CryptoKernel Ctx) (e : Env Ctx)
    (s : PacketState Ctx) (config : EbafCryptoConfig) (hconfig : e.config = some config)
    (henc : config.action = ebafActionEncrypt) :
    ((∃ c iv, e.slot = some (some c) ∧ EncryptCompleted K c iv s ((tcTransparent K e).exec s)) ∨
        ((tcTransparent K e).exec s).frame = s.frame) ↔
      (TransparentAccepts s.frame config ∧ CanGrow e s.frame →
        (∃ c, ReadyToSeal e config s.frame c) ∧ e.fails .cipher = false ∧
          e.fails .ivStore = false ∧ ipTotLen s.frame + sealDelta s.frame < 65536 ∧
          s.stats.isSome = true) := by
  generalize hs' : (tcTransparent K e).exec s = s'
  cases hs' ▸ tcTransparent_encrypt_spec (s := s) hconfig henc with
  | refused h hs =>
    obtain ⟨d, -, rfl⟩ := hs
    exact ⟨fun _ hg => absurd hg h, fun _ => .inr rfl⟩
  | stranded ha hg hn hs =>
    obtain ⟨d, hd, hstats⟩ := hs.stats
    have hn' : ¬ CountedOk s s' := not_countedOk hd hstats
    constructor
    · intro h
      exact absurd h (not_atomic_of_uncounted hs.length hn')
    · intro hall
      obtain ⟨⟨c, hc⟩, -⟩ := hall ⟨ha, hg⟩
      exact absurd hc (hn c)
  | cipherFailed c h hcipher hs =>
    have hn : ¬ CountedOk s s' := not_countedOk_of_doublyFailed (by rw [hs])
    have hlen : s'.frame.length = s.frame.length + sealDelta s.frame := by
      rw [hs]
      exact length_grownFrame
    constructor
    · intro hc
      exact absurd hc (not_atomic_of_uncounted hlen hn)
    · intro hall
      obtain ⟨-, hok, -⟩ := hall ⟨h.accepted, h.grows⟩
      simp [hcipher] at hok
  | ivLost c h hcipher hiv hlen hstats hevents hcalls =>
    have hn : ¬ CountedOk s s' := not_countedOk (by simp) hstats
    constructor
    · intro hc
      exact absurd hc (not_atomic_of_uncounted hlen hn)
    · intro hall
      obtain ⟨-, -, hok, -⟩ := hall ⟨h.accepted, h.grows⟩
      simp [hiv] at hok
  | sealed c h hcipher hiv hs =>
    have hframe : s'.frame = sealFrame K c (fillIv e.ivClock) s.frame := by rw [hs]
    have hstats : s'.stats = (s.accounted .cryptoOk).stats := by rw [hs]
    constructor
    · rintro (⟨c', iv, -, hc⟩ | heq) -
      · exact ⟨⟨c, h⟩, hcipher, hiv, fits_of_encryptCompleted hc⟩
      · exact absurd heq (grown_ne (by rw [hframe, length_sealFrame]))
    · intro hall
      obtain ⟨-, -, -, hfits, hsome⟩ := hall ⟨h.accepted, h.grows⟩
      obtain ⟨st, hst⟩ := Option.isSome_iff_exists.mp hsome
      exact .inl ⟨c, _, h.keyed.installed, encryptCompleted_of_sealed h hst hfits hframe hstats⟩

/-- The payload `ping` is encrypted completely. -/
theorem tcTransparent_encrypts_ping :
    (∃ c iv, knownSender.slot = some (some c) ∧ EncryptCompleted (pingKernel _) c iv pingPacket
        ((tcTransparent (pingKernel _) knownSender).exec pingPacket)) ∨
      ((tcTransparent (pingKernel _) knownSender).exec pingPacket).frame = pingPacket.frame := by
  have accepted : TransparentAccepts pingPacket.frame (knownConfig ebafActionEncrypt) :=
    ⟨pingDatagram_isTransparent, rfl, Or.inl rfl⟩
  have calls : GrowCallsOk knownSender pingPacket.frame := ⟨fun _ _ => rfl, rfl, by decide, rfl⟩
  have ready : ReadyToSeal knownSender (knownConfig ebafActionEncrypt) pingPacket.frame knownKey :=
    ⟨accepted, ⟨by decide, by decide, rfl⟩, calls, rfl, by decide⟩
  exact (tcTransparent_encrypt_atomic_iff _ _ _ (knownConfig ebafActionEncrypt) rfl rfl).mpr
    fun _ => ⟨⟨knownKey, ready⟩, rfl, rfl, by decide, rfl⟩

/-- A sender for which no context is installed. -/
def keylessSender : Env (List UInt8) := { knownSender with slot := some none }

/-- Without a context, the packet leaves with padding and a trailer behind a
payload that is not encrypted. -/
theorem tcTransparent_strands_ping :
    ¬ ((∃ c iv, keylessSender.slot = some (some c) ∧
          EncryptCompleted (pingKernel _) c iv pingPacket
            ((tcTransparent (pingKernel _) keylessSender).exec pingPacket)) ∨
        ((tcTransparent (pingKernel _) keylessSender).exec pingPacket).frame = pingPacket.frame) ∧
      load ((tcTransparent (pingKernel _) keylessSender).exec pingPacket).frame 42 40 =
        ping ++ List.replicate 12 12 ++ (newHdr 16 (fillIv 1000000000)).bytes := by
  have left : load ((tcTransparent (pingKernel _) keylessSender).exec pingPacket).frame 42 40 =
      ping ++ List.replicate 12 12 ++ (newHdr 16 (fillIv 1000000000)).bytes := by
    decide +kernel
  refine ⟨?_, left⟩
  rintro (⟨c, iv, hslot, -⟩ | hsame)
  · cases hslot
  · rw [hsame] at left
    exact absurd left (by decide)

/-! ## Decryption -/

/-- A packet was decrypted under the context `c`: the plaintext is in place of
the body, padding and trailer are cut off, and the length fields are smaller by
as many bytes as the packet. -/
structure DecryptCompleted (K : CryptoKernel Ctx) (c : Ctx) (s s' : PacketState Ctx) : Prop where
  pad : PadOk K c s.frame
  body : load s'.frame (payloadOff s.frame) (openedLen s.frame - padByte K c s.frame) =
    (plainBody K c s.frame).take (openedLen s.frame - padByte K c s.frame)
  cut : s'.frame.length + openDelta K c s.frame = s.frame.length
  ipLen : ipTotLen s'.frame + openDelta K c s.frame = ipTotLen s.frame
  udpLen : udpLen s'.frame + openDelta K c s.frame = udpLen s.frame

section
variable {K : CryptoKernel Ctx} {e : Env Ctx} {config : EbafCryptoConfig} {c : Ctx}
  {s s' : PacketState Ctx}

theorem ReadyToOpen.unique (h : ReadyToOpen e config s.frame c) {c' : Ctx}
    (h' : ReadyToOpen e config s.frame c') : c' = c :=
  h.keyed.unique h'.keyed

/-- An opened frame is a completed decryption, whether or not the UDP checksum
was cleared. -/
theorem decryptCompleted_of_opened (h : ReadyToOpen e config s.frame c)
    (ht : Trims K e c s.frame) (hr : Refields K e c s.frame)
    (hframe : s'.frame = openFrame K c s.frame ∨ s'.frame = unsummedFrame K c s.frame) :
    DecryptCompleted K c s s' := by
  have hf : IsTransparent config.udpPort s.frame := h.accepted.datagram
  have hcut := openDelta_le hf h.trailer ht.pad
  obtain ⟨-, hip, hudp⟩ := hr
  rcases hframe with hframe | hframe
  · refine ⟨ht.pad, ?_, ?_, ?_, ?_⟩
    · rw [hframe, load_openFrame_body hf h.trailer ht.pad]
    · rw [hframe, length_openFrame]
      omega
    · rw [hframe, ipTotLen_openFrame hf h.trailer ht.pad, Nat.sub_add_cancel hip]
    · rw [hframe, udpLen_openFrame hf h.trailer ht.pad, Nat.sub_add_cancel hudp]
  · refine ⟨ht.pad, ?_, ?_, ?_, ?_⟩
    · rw [hframe, load_unsummedFrame_body hf h.trailer ht.pad]
    · rw [hframe, length_unsummedFrame]
      omega
    · rw [hframe, ipTotLen_unsummedFrame hf h.trailer ht.pad, Nat.sub_add_cancel hip]
    · rw [hframe, udpLen_unsummedFrame hf h.trailer ht.pad, Nat.sub_add_cancel hudp]

/-- Where a length field was left as it was, the decryption is not complete. -/
theorem not_decryptCompleted_of_halfway (h : ReadyToOpen e config s.frame c)
    (ht : Trims K e c s.frame)
    (hg : Halfway ipOff (udpOff s.frame) (cutFrame K c s.frame) s'.frame) :
    ¬ DecryptCompleted K c s s' := by
  intro hc
  have hf : IsTransparent config.udpPort s.frame := h.accepted.datagram
  have hpos := openDelta_pos (K := K) (c := c) (f := s.frame)
  have hsame : SamePointers s.frame s'.frame :=
    hg.start.trans (cutFrame_samePointers hf h.trailer ht.pad)
  rcases hg.field with hip | hudp
  · have hkept : ipTotLen s'.frame = ipTotLen s.frame :=
      hip.trans (be16_cutFrame hf h.trailer ht.pad (by rw [hf.payloadOff, ipOff]; omega))
    have := hc.ipLen
    omega
  · have hkept : udpLen s'.frame = udpLen s.frame := by
      rw [udpLen, hsame.udpOff, hudp,
        be16_cutFrame hf h.trailer ht.pad (by rw [hf.payloadOff, hf.udpOff]; omega), ← udpLen]
    have := hc.udpLen
    omega

/-- A deciphered packet that is not opened: it is complete after all when only the
UDP checksum was not cleared, and unchanged when the cipher call has changed
nothing and the packet was not cut. -/
theorem undone_atomic_iff (h : ReadyToOpen e config s.frame c)
    (hframe : NotOpened K e c s.frame s'.frame) :
    (DecryptCompleted K c s s' ∨ s'.frame = s.frame) ↔
      (Trims K e c s.frame ∧ Refields K e c s.frame) ∨
        (¬ Trims K e c s.frame ∧ decipheredFrame K c s.frame = s.frame) := by
  have hf : IsTransparent config.udpPort s.frame := h.accepted.datagram
  have hpos := openDelta_pos (K := K) (c := c) (f := s.frame)
  cases hframe with
  | kept hn hg =>
    have hnot : ¬ DecryptCompleted K c s s' := by
      intro hc
      have := hc.cut
      rw [hg, length_decipheredFrame] at this
      omega
    rw [hg]
    constructor
    · intro hor
      exact .inr ⟨hn, hor.resolve_left hnot⟩
    · rintro (⟨ht, -⟩ | ⟨-, hsame⟩)
      · exact absurd ht hn
      · exact .inr hsame
  | halfway ht hn hg =>
    have hne : s'.frame ≠ s.frame := by
      intro heq
      have hlen := hg.length
      have hcut := openDelta_le hf h.trailer ht.pad
      rw [heq, length_cutFrame] at hlen
      omega
    constructor
    · rintro (hc | heq)
      · exact absurd hc (not_decryptCompleted_of_halfway h ht hg)
      · exact absurd heq hne
    · rintro (⟨-, hr⟩ | ⟨hn', -⟩)
      · exact absurd hr hn
      · exact absurd ht hn'
  | unsummed ht hr _ hg =>
    exact ⟨fun _ => .inl ⟨ht, hr⟩, fun _ => .inl (decryptCompleted_of_opened h ht hr (.inr hg))⟩

end

/-- **When decryption is atomic.**  A packet to be decrypted is either decrypted
completely or handed on byte for byte, exactly when the following holds: if the
cipher is called and succeeds, then the padding is accepted, the packet can be
cut and both length fields can be updated; or the packet is not cut and the
cipher call has happened to change nothing. -/
theorem tcTransparent_decrypt_atomic_iff (K : CryptoKernel Ctx) (e : Env Ctx)
    (s : PacketState Ctx) (config : EbafCryptoConfig) (hconfig : e.config = some config)
    (hdec : config.action = ebafActionDecrypt) :
    ((∃ c, e.slot = some (some c) ∧ DecryptCompleted K c s ((tcTransparent K e).exec s)) ∨
        ((tcTransparent K e).exec s).frame = s.frame) ↔
      (∀ c, ReadyToOpen e config s.frame c → e.fails .cipher = false →
        (Trims K e c s.frame ∧ Refields K e c s.frame) ∨
          (¬ Trims K e c s.frame ∧ decipheredFrame K c s.frame = s.frame)) := by
  generalize hs' : (tcTransparent K e).exec s = s'
  cases hs' ▸ tcTransparent_decrypt_spec (s := s) hconfig hdec with
  | refused h hs =>
    obtain ⟨d, -, rfl⟩ := hs
    exact ⟨fun _ c hc => absurd hc (h c), fun _ => .inr rfl⟩
  | cipherFailed c h hcipher hs =>
    constructor
    · intro _ _ _ hok
      simp [hcipher] at hok
    · intro _
      exact .inr (by rw [hs])
  | undone c h hcipher hframe hs =>
    -- only the context at hand matters
    have hctx : ((∃ c, e.slot = some (some c) ∧ DecryptCompleted K c s s') ∨
        s'.frame = s.frame) ↔ (DecryptCompleted K c s s' ∨ s'.frame = s.frame) := by
      refine or_congr ⟨?_, fun hc => ⟨c, h.keyed.installed, hc⟩⟩ Iff.rfl
      rintro ⟨c', hc', hdone⟩
      obtain rfl := Option.some.inj (Option.some.inj (h.keyed.installed.symm.trans hc'))
      exact hdone
    rw [hctx, undone_atomic_iff h hframe]
    constructor
    · intro hc c' h' _
      rwa [h.unique h']
    · intro hall
      exact hall c h hcipher
  | opened c h hcipher ht hr hcheck hs =>
    have completed : DecryptCompleted K c s s' :=
      decryptCompleted_of_opened h ht hr (.inl (by rw [hs]))
    constructor
    · intro _ c' h' _
      rw [h.unique h']
      exact .inl ⟨ht, hr⟩
    · intro _
      exact .inl ⟨c, h.keyed.installed, completed⟩

/-- The encrypted payload `ping` is decrypted completely. -/
theorem tcTransparent_decrypts_ping :
    (∃ c, knownReceiver.slot = some (some c) ∧
        DecryptCompleted (pingKernel _) c (trailedPacket (fillIv 1000000000) pingCipher)
          ((tcTransparent (pingKernel _) knownReceiver).exec
            (trailedPacket (fillIv 1000000000) pingCipher))) ∨
      ((tcTransparent (pingKernel _) knownReceiver).exec
        (trailedPacket (fillIv 1000000000) pingCipher)).frame =
          (trailedPacket (fillIv 1000000000) pingCipher).frame := by
  refine (tcTransparent_decrypt_atomic_iff _ _ _ (knownConfig ebafActionDecrypt) rfl rfl).mpr
    fun c ready _ => Or.inl ⟨⟨?_, rfl, rfl⟩, by decide, ?_⟩
  · obtain rfl : knownKey = c := Option.some.inj (Option.some.inj ready.keyed.installed)
    exact ⟨by decide, by decide, by decide⟩
  · obtain rfl : knownKey = c := Option.some.inj (Option.some.inj ready.keyed.installed)
    exact ⟨by decide, by decide⟩

/-- A block whose plaintext does not end in a padding is decrypted in place, and
the packet is handed on like that. -/
theorem tcTransparent_leaves_plaintext :
    ¬ ((∃ c, knownReceiver.slot = some (some c) ∧
          DecryptCompleted (knownKernel _) c (trailedPacket knownIv knownCipher)
            ((tcTransparent (knownKernel _) knownReceiver).exec
              (trailedPacket knownIv knownCipher))) ∨
        ((tcTransparent (knownKernel _) knownReceiver).exec
          (trailedPacket knownIv knownCipher)).frame = (trailedPacket knownIv knownCipher).frame) ∧
      load ((tcTransparent (knownKernel _) knownReceiver).exec
        (trailedPacket knownIv knownCipher)).frame 42 16 = knownPlain := by
  have left : load ((tcTransparent (knownKernel _) knownReceiver).exec
      (trailedPacket knownIv knownCipher)).frame 42 16 = knownPlain := by
    decide +kernel
  refine ⟨?_, left⟩
  rintro (⟨c, hslot, hdone⟩ | hsame)
  · obtain rfl : knownKey = c := Option.some.inj (Option.some.inj hslot)
    have pad : padByte (knownKernel _) knownKey (trailedPacket knownIv knownCipher).frame = 42 := by
      decide
    have small := hdone.pad.block
    rw [pad] at small
    exact absurd small (by decide)
  · rw [hsame] at left
    exact absurd left (by decide)

end Ebaf
