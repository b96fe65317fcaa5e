import Ebaf.Interface
import Ebaf.TransparentStatistics

/-! # The cipher calls of a program

A program calls the cipher at most once for a packet.  A framed program makes
its call exactly when the body is handed over (`Handed`), and `tc_transparent`
when everything is ready for it (`ReadyToSeal`, `ReadyToOpen`).
-/
namespace Ebaf
open ByteWindow EarlyExit

variable {Ctx : Type} {K : CryptoKernel Ctx} {e : Env Ctx} {s s' : PacketState Ctx}

/-- The calls a run has added. -/
def AddsCalls (s s' : PacketState Ctx) (calls : List (CipherCall Ctx)) : Prop :=
  s'.cipherCalls = s.cipherCalls ++ calls

theorem PacketState.Refused.addsCalls (h : s.Refused s') : AddsCalls s s' [] := by
  obtain ⟨d, -, rfl⟩ := h
  exact (List.append_nil _).symm

/-- A framed program makes one call when the body is handed over. -/
theorem FramedEnd.call_of_handed {accepts : EbafCryptoConfig → Prop}
    {dir : EbafCryptoConfig → Option Direction} {config : EbafCryptoConfig} {c : Ctx}
    {d : Direction}
    (h : FramedEnd K e accepts dir s s') (hd : Handed e accepts dir config c d) :
    AddsCalls s s' [framedCall s.frame d c (!e.fails .cipher)] := by
  cases h with
  | refused hn _ => exact absurd hd (hn config c d)
  | failed config' c' d' hd' hcipher hs =>
    obtain ⟨-, rfl, rfl⟩ := hd.unique hd'
    rw [AddsCalls, hs, hcipher]
    rfl
  | transformed config' c' d' hd' hcipher hs =>
    obtain ⟨-, rfl, rfl⟩ := hd.unique hd'
    rw [AddsCalls, hs, hcipher]
    rfl

/-- None when it is not. -/
theorem FramedEnd.no_call {accepts : EbafCryptoConfig → Prop}
    {dir : EbafCryptoConfig → Option Direction} (h : FramedEnd K e accepts dir s s')
    (hn : ∀ config c d, ¬ Handed e accepts dir config c d) : AddsCalls s s' [] := by
  cases h with
  | refused _ hs => exact hs.addsCalls
  | failed config c d hd _ _ => exact absurd hd (hn config c d)
  | transformed config c d hd _ _ => exact absurd hd (hn config c d)

/-- Encryption in transparent mode makes one call when everything is ready. -/
theorem EncryptEnd.call_of_ready {config : EbafCryptoConfig} {c : Ctx}
    (h : EncryptEnd K e config s s') (hready : ReadyToSeal e config s.frame c) :
    AddsCalls s s'
      [⟨.encrypt, c, paddedPayload s.frame, fillIv e.ivClock, !e.fails .cipher⟩] := by
  cases h with
  | refused hn _ => exact absurd ⟨hready.accepted, hready.grows⟩ hn
  | stranded _ _ hn _ => exact absurd hready (hn c)
  | cipherFailed c' h' hcipher hs =>
    obtain rfl := hready.keyed.unique h'.keyed
    rw [AddsCalls, hs, hcipher]
    rfl
  | ivLost c' h' hcipher _ _ _ _ hcalls =>
    obtain rfl := hready.keyed.unique h'.keyed
    rw [hcipher]
    exact hcalls
  | sealed c' h' hcipher _ hs =>
    obtain rfl := hready.keyed.unique h'.keyed
    rw [AddsCalls, hs, hcipher]
    rfl

theorem EncryptEnd.calls {config : EbafCryptoConfig} (h : EncryptEnd K e config s s') :
    ∃ calls, AddsCalls s s' calls ∧ calls.length ≤ 1 := by
  cases h with
  | refused _ hs => exact ⟨[], hs.addsCalls, Nat.zero_le _⟩
  | stranded _ _ _ hs => exact ⟨[], by rw [AddsCalls, hs.calls, List.append_nil], Nat.zero_le _⟩
  | cipherFailed c _ _ hs => exact ⟨_, by rw [AddsCalls, hs], Nat.le_refl _⟩
  | ivLost c _ _ _ _ _ _ hcalls => exact ⟨_, hcalls, Nat.le_refl _⟩
  | sealed c _ _ _ hs => exact ⟨_, by rw [AddsCalls, hs], Nat.le_refl _⟩

/-- Decryption in transparent mode makes one call when everything is ready. -/
theorem DecryptEnd.call_of_ready {config : EbafCryptoConfig} {c : Ctx}
    (h : DecryptEnd K e config s s') (hready : ReadyToOpen e config s.frame c) :
    AddsCalls s s'
      [⟨.decrypt, c, cipherBody s.frame, (tailHdr s.frame).iv, !e.fails .cipher⟩] := by
  cases h with
  | refused hn _ => exact absurd hready (hn c)
  | cipherFailed c' h' hcipher hs =>
    obtain rfl := hready.keyed.unique h'.keyed
    rw [AddsCalls, hs, hcipher]
    rfl
  | undone c' h' hcipher _ hs =>
    obtain rfl := hready.keyed.unique h'.keyed
    rw [hcipher]
    exact hs.calls
  | opened c' h' hcipher _ _ _ hs =>
    obtain rfl := hready.keyed.unique h'.keyed
    rw [AddsCalls, hs, hcipher]
    rfl

theorem DecryptEnd.calls {config : EbafCryptoConfig} (h : DecryptEnd K e config s s') :
    ∃ calls, AddsCalls s s' calls ∧ calls.length ≤ 1 := by
  cases h with
  | refused _ hs => exact ⟨[], hs.addsCalls, Nat.zero_le _⟩
  | cipherFailed c _ _ hs => exact ⟨_, by rw [AddsCalls, hs], Nat.le_refl _⟩
  | undone c _ _ _ hs => exact ⟨_, hs.calls, Nat.le_refl _⟩
  | opened c _ _ _ _ _ hs => exact ⟨_, by rw [AddsCalls, hs, deciphered], Nat.le_refl _⟩

/-- **A program calls the cipher at most once for a packet.** -/
theorem PacketProgram.run_calls (p : PacketProgram) (K : CryptoKernel Ctx) (e : Env Ctx)
    (s : PacketState Ctx) :
    ∃ calls, AddsCalls s ((p.run K e).exec s) calls ∧ calls.length ≤ 1 := by
  cases p with
  | framed p =>
    have hend := p.spec K e s
    by_cases h : ∃ config c d, Handed e (p.Accepts s.frame) p.direction config c d
    · obtain ⟨config, c, d, hd⟩ := h
      exact ⟨_, hend.call_of_handed hd, Nat.le_refl _⟩
    · have hn := hend.no_call fun config c d hd => h ⟨config, c, d, hd⟩
      exact ⟨[], hn, Nat.zero_le _⟩
  | transparent =>
    by_cases h : ∃ config, e.config = some config ∧ TransparentAccepts s.frame config
    · obtain ⟨config, hconfig, ha⟩ := h
      rcases ha.action with henc | hdec
      · exact (tcTransparent_encrypt_spec hconfig henc).calls
      · exact (tcTransparent_decrypt_spec hconfig hdec).calls
    · have hn : ∀ config, e.config = some config → ¬ TransparentAccepts s.frame config :=
        fun config hc ha => h ⟨config, hc, ha⟩
      exact ⟨[], (tcTransparent_refuses hn).addsCalls, Nat.zero_le _⟩

/-- **The TC programs know AES-CBC only**: with another algorithm they leave the
cipher alone. -/
theorem PacketProgram.run_noCalls {p : PacketProgram} {config : EbafCryptoConfig}
    (hp : p ≠ .framed .xdp) (hconfig : e.config = some config)
    (halgo : config.algo ≠ ebafAlgoCbcAes) : AddsCalls s ((p.run K e).exec s) [] := by
  match p with
  | .framed .xdp => exact absurd rfl hp
  | .framed .tc =>
    refine (FramedProgram.tc.spec K e s).no_call fun config' c d hd => halgo ?_
    obtain rfl := Option.some.inj (hconfig.symm.trans hd.configured)
    exact TcAccepts.algo hd.accepted
  | .transparent =>
    refine PacketState.Refused.addsCalls (tcTransparent_refuses fun config' hc ha => halgo ?_)
    obtain rfl := Option.some.inj (hconfig.symm.trans hc)
    exact ha.algo

end Ebaf
