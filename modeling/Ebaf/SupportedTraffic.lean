import Ebaf.AttachedPrograms
import Ebaf.TrailedPayload

/-! # No matching traffic passes silently

Every packet program that a start attaches should hand the body of a datagram of
its mode to the cipher.  The TC programs pass every packet when the algorithm is
not AES-CBC, and `ebaf_parse_args` accepts ChaCha20 for every hook: exactly then,
matching traffic leaves as it came.
-/
namespace Ebaf
open ByteWindow EarlyExit CStrings

variable {Other Ctx : Type}

namespace PacketProgram

/-- A datagram of the mode of a program, for the configured port and action. -/
def Valid (config : EbafCryptoConfig) (f : Frame) : PacketProgram → Prop
  | framed _ => IsFramed config.udpPort f ∧ ipIhl f = 5 ∧ ¬ isFragment f ∧
      (framedHeader f).action = 1 ∧ framedBodyLen f % 16 = 0
  | transparent => IsTransparent config.udpPort f ∧
      if config.action = ebafActionEncrypt then
        1 ≤ payloadLen f ∧ payloadLen f ≤ ebafMaxTransparentPayload
      else HasTrailer f

/-- The body of such a datagram, as it is to be handed to the cipher. -/
def body (config : EbafCryptoConfig) (f : Frame) : PacketProgram → List UInt8
  | framed _ => framedBody f
  | transparent =>
    if config.action = ebafActionEncrypt then paddedPayload f else cipherBody f

end PacketProgram

/-- No helper or kfunc fails but the cipher, perhaps. -/
def NothingFails (answers : Env Ctx) : Prop :=
  ∀ call, call ≠ .cipher → answers.fails call = false

theorem NothingFails.dynptrs {answers : Env Ctx} (h : NothingFails answers) : DynptrsOk answers :=
  ⟨h _ (by simp), h _ (by simp), h _ (by simp), h _ (by simp), h _ (by simp)⟩

theorem NothingFails.growCalls {answers : Env Ctx} (h : NothingFails answers) (f : Frame) :
    GrowCallsOk answers f where
  pad _ _ := h _ (by simp)
  trailer := h _ (by simp)
  fields := ⟨h _ (by simp), h _ (by simp), h _ (by simp), h _ (by simp), h _ (by simp)⟩
  check := h _ (by simp)

/-- A run hands the body to the cipher, in the configured direction; `ok` tells
whether the cipher succeeds. -/
def HandsOver (config : EbafCryptoConfig) (ok : Bool) (p : PacketProgram)
    (s s' : PacketState Ctx) : Prop :=
  ∃ c iv, AddsCalls s s' [⟨transparentDirection config, c, p.body config s.frame, iv, ok⟩]

/-- **Every attached program hands over every datagram of its mode.** -/
def HandlesTraffic (K : CryptoKernel Ctx) (config : EbafCryptoConfig) (k : LoaderKernel Other Ctx) :
    Prop :=
  ∀ p, (p ∈ k.interface.receivePath ∨ p ∈ k.interface.sendPath) →
    ∀ answers : Env Ctx, NothingFails answers → ∀ s : PacketState Ctx, p.Valid config s.frame →
      HandsOver config (!answers.fails .cipher) p s ((p.run K (k.env p answers)).exec s)

section Supported
variable {K : CryptoKernel Ctx} {answers : Env Ctx} {config : EbafCryptoConfig} {c : Ctx}
  {s : PacketState Ctx}

/-- The answers with a context installed are ready for the cipher. -/
theorem NothingFails.keyed (h : NothingFails answers) : Keyed (answers.keyed config c) c where
  installed := rfl
  dynptrs := h.dynptrs

/-- What a framed program accepts is ready for the cipher. -/
theorem handed_of_accepts {p : FramedProgram} (h : NothingFails answers)
    (haction : config.action = ebafActionEncrypt ∨ config.action = ebafActionDecrypt)
    (haccepts : p.Accepts s.frame config) :
    Handed (answers.keyed config c) (p.Accepts s.frame) p.direction config c
      (transparentDirection config) := by
  refine ⟨rfl, haccepts, h.keyed, ?_⟩
  rcases haction with henc | hdec
  · rw [FramedProgram.direction_encrypt henc, transparentDirection, if_pos henc]
  · have hne : ¬ config.action = ebafActionEncrypt :=
      fun henc => encrypt_ne_decrypt (henc.symm.trans hdec)
    rw [FramedProgram.direction_decrypt hdec, transparentDirection, if_neg hne]

/-- A framed program hands over what it accepts. -/
theorem framed_handsOver {p : FramedProgram} (h : NothingFails answers)
    (haction : config.action = ebafActionEncrypt ∨ config.action = ebafActionDecrypt)
    (haccepts : p.Accepts s.frame config) :
    HandsOver config (!answers.fails .cipher) (.framed p) s
      ((p.run K (answers.keyed config c)).exec s) :=
  ⟨c, framedIv s.frame, (p.spec K (answers.keyed config c) s).call_of_handed
    (handed_of_accepts h haction haccepts)⟩

/-- With AES-CBC a framed program accepts every datagram of its mode. -/
theorem PacketProgram.Valid.accepts {p : FramedProgram} {f : Frame}
    (h : (PacketProgram.framed p).Valid config f)
    (haction : config.action = ebafActionEncrypt ∨ config.action = ebafActionDecrypt)
    (halgo : config.algo = ebafAlgoCbcAes) : p.Accepts f config := by
  obtain ⟨hf, -, hwhole, hmarked, haligned⟩ := h
  cases p with
  | xdp => exact XdpAccepts.mk hf fun _ => haligned
  | tc => exact TcAccepts.mk hf hwhole haction halgo hmarked haligned

/-- With AES-CBC every program hands over every datagram of its mode. -/
theorem aes_handsOver {p : PacketProgram} (h : NothingFails answers)
    (haction : config.action = ebafActionEncrypt ∨ config.action = ebafActionDecrypt)
    (halgo : config.algo = ebafAlgoCbcAes) (hvalid : p.Valid config s.frame) :
    HandsOver config (!answers.fails .cipher) p s ((p.run K (answers.keyed config c)).exec s) := by
  cases p with
  | framed p => exact framed_handsOver h haction (hvalid.accepts haction halgo)
  | transparent =>
    obtain ⟨hf, hpayload⟩ := hvalid
    have haccepts : TransparentAccepts s.frame config := ⟨hf, halgo, haction⟩
    have hkeyed : NothingFails (answers.keyed config c) := h
    rcases haction with henc | hdec
    · rw [if_pos henc] at hpayload
      have hready : ReadyToSeal (answers.keyed config c) config s.frame c :=
        ⟨haccepts, ⟨by omega, hpayload.2, h _ (by simp)⟩, hkeyed.growCalls _, h.keyed⟩
      refine ⟨c, fillIv answers.ivClock, ?_⟩
      rw [transparentDirection, if_pos henc, PacketProgram.body, if_pos henc]
      exact (tcTransparent_encrypt_spec (K := K) rfl henc).call_of_ready hready
    · have hne : ¬ config.action = ebafActionEncrypt :=
        fun henc => encrypt_ne_decrypt (henc.symm.trans hdec)
      rw [if_neg hne] at hpayload
      have hready : ReadyToOpen (answers.keyed config c) config s.frame c :=
        ⟨haccepts, hpayload, h _ (by simp), h.keyed⟩
      refine ⟨c, (tailHdr s.frame).iv, ?_⟩
      rw [transparentDirection, if_neg hne, PacketProgram.body, if_neg hne]
      exact (tcTransparent_decrypt_spec (K := K) rfl hdec).call_of_ready hready

/-- A datagram with a framed payload of whole blocks is one of its mode. -/
theorem datagram_valid {p : FramedProgram} {iv body : List UInt8}
    (hfits : Fits (framedPayload iv body)) (hiv : iv.length = ebafCryptoIvBytes) (hbody : body ≠ [])
    (haligned : body.length % 16 = 0) :
    (PacketProgram.framed p).Valid config (datagram config.udpPort (framedPayload iv body)) := by
  refine ⟨datagram_isFramed hfits hiv hbody, ipIhl_datagram, not_isFragment_datagram, ?_, ?_⟩
  · rw [framedHeader_datagram hiv]
    rfl
  · rw [framedBodyLen_datagram hfits]
    exact haligned

/-- A block of zeros. -/
def zeroBlock : List UInt8 := List.replicate 16 0

/-- Every mode has a datagram, for every port and action. -/
theorem exists_valid (p : PacketProgram) (config : EbafCryptoConfig) : ∃ f, p.Valid config f := by
  have hfits : Fits (framedPayload zeroBlock zeroBlock) := by decide
  have hfits' : Fits (trailedPayload zeroBlock zeroBlock) := by decide
  cases p with
  | framed p => exact ⟨_, datagram_valid hfits rfl (by decide) (by decide)⟩
  | transparent =>
    by_cases henc : config.action = ebafActionEncrypt
    · have hone : Fits [0] := by decide
      refine ⟨datagram config.udpPort [0], datagram_isTransparent hone, ?_⟩
      rw [if_pos henc, payloadLen_datagram hone]
      decide
    · refine ⟨datagram config.udpPort (trailedPayload zeroBlock zeroBlock),
        datagram_isTransparent hfits', ?_⟩
      rw [if_neg henc]
      exact datagram_hasTrailer hfits' rfl (by decide) rfl

end Supported

section Started
variable {K : CryptoKernel Ctx} {e : LoadEnv Ctx} {cfg : EbafUserConfig} {o : Others Other}
  {s : LoaderState Other Ctx}

/-- A configuration that uses the TC hook has its TC program on a path. -/
theorem tcProgram_attached (huse : cfg.hook.usesTc = true) :
    cfg.tcProgram ∈ cfg.receivePrograms ∨ cfg.tcProgram ∈ cfg.sendPrograms := by
  cases hpoint : cfg.attachPoint with
  | ingress =>
    refine Or.inl (List.mem_append_right _ ?_)
    rw [if_pos ⟨huse, hpoint⟩]
    exact List.mem_singleton_self _
  | egress =>
    refine Or.inr ?_
    rw [EbafUserConfig.sendPrograms, if_pos ⟨huse, hpoint⟩]
    exact List.mem_singleton_self _

/-- Without the TC hook there is the XDP program only. -/
theorem eq_xdp_of_attached (hhook : cfg.hook = .xdp) {p : PacketProgram}
    (hp : p ∈ cfg.receivePrograms ∨ p ∈ cfg.sendPrograms) : p = .framed .xdp := by
  simpa [EbafUserConfig.receivePrograms, EbafUserConfig.sendPrograms, hhook, Hook.usesTc,
    Hook.usesXdp] using hp

/-- With another algorithm a TC program lets a datagram of its mode pass. -/
theorem Running.passes (running : Running e cfg o s) (huse : cfg.hook.usesTc = true)
    (halgo : cfg.crypto.algo ≠ ebafAlgoCbcAes) : ¬ HandlesTraffic K cfg.crypto s.kernel := by
  intro hall
  obtain ⟨c, -, henv⟩ := running.env
  have hp := tcProgram_attached huse
  obtain ⟨f, hvalid⟩ := exists_valid cfg.tcProgram cfg.crypto
  rw [HandlesTraffic, running.receivePath, running.sendPath] at hall
  obtain ⟨_, _, hcall⟩ := hall _ hp (.smooth cfg.crypto c) (fun _ _ => rfl) (entering f none) hvalid
  rw [henv _ hp] at hcall
  have hnone : AddsCalls (entering f none) ((cfg.tcProgram.run K
      ((Env.smooth cfg.crypto c).keyed cfg.crypto c)).exec (entering f none)) [] :=
    PacketProgram.run_noCalls (tcProgram_ne_xdp cfg) rfl halgo
  rw [AddsCalls, hnone] at hcall
  cases hcall

/-- Every attached program that knows the algorithm hands over. -/
theorem Running.handles (running : Running e cfg o s)
    (haction : cfg.crypto.action = ebafActionEncrypt ∨ cfg.crypto.action = ebafActionDecrypt)
    (hcond : cfg.crypto.algo = ebafAlgoCbcAes ∨ cfg.hook = .xdp) :
    HandlesTraffic K cfg.crypto s.kernel := by
  obtain ⟨c, -, henv⟩ := running.env
  intro p hp answers hok t hvalid
  rw [running.receivePath, running.sendPath] at hp
  rw [henv p hp answers]
  by_cases halgo : cfg.crypto.algo = ebafAlgoCbcAes
  · exact aes_handsOver hok haction halgo hvalid
  · obtain rfl := eq_xdp_of_attached (hcond.resolve_left halgo) hp
    obtain ⟨hf, -, -, -, haligned⟩ := hvalid
    exact framed_handsOver hok haction (XdpAccepts.mk hf fun _ => haligned)

end Started

/-- **Which accepted configurations let matching traffic pass.**  After a
successful start for an accepted argument vector, every attached program hands
over every datagram of its mode exactly when the algorithm is AES-CBC or no TC
program is attached. -/
theorem started_handlesTraffic_iff (K : CryptoKernel Ctx) (argv : List CString)
    (cfg : EbafUserConfig) (e : LoadEnv Ctx) (o : Others Other)
    (hparse : ebafParseArgs argv = some cfg)
    (hstart : ((ebafBpfStart e cfg).exec (.initial o)).err = 0) :
    HandlesTraffic K cfg.crypto ((ebafBpfStart e cfg).exec (.initial o)).kernel ↔
      (cfg.crypto.algo = ebafAlgoCbcAes ∨ cfg.hook = .xdp) := by
  have wellFormed := ebafParseArgs_wellFormed hparse
  have running := running_of_started hstart
  constructor
  · intro hall
    by_contra hn
    obtain ⟨halgo, hhook⟩ := not_or.mp hn
    have huse : cfg.hook.usesTc = true := by
      cases hk : cfg.hook with
      | xdp => exact absurd hk hhook
      | tc | both => rfl
    exact running.passes huse halgo hall
  · exact running.handles wellFormed.action

/-- AES-CBC at both hooks: all of it is handed over. -/
theorem started_handlesTraffic_of_both :
    HandlesTraffic (knownKernel BpfCryptoParams) (knownConfig ebafActionEncrypt)
      ((ebafBpfStart .smooth (knownUserConfig ebafActionEncrypt .both)).exec
        (.initial (.nobody Unit))).kernel :=
  (started_handlesTraffic_iff _ (knownArgv (lit "encrypt") (lit "both"))
    (knownUserConfig ebafActionEncrypt .both) .smooth _ (by decide) rfl).mpr (Or.inl rfl)

/-- ChaCha20 at the TC hook. -/
def chachaArgv : List CString :=
  [lit "ebaf", lit "--iface", lit "eth0", lit "--mode", lit "encrypt", lit "--hook", lit "tc",
    lit "--algo", lit "chacha20", lit "--key",
    lit "000102030405060708090a0b0c0d0e0f000102030405060708090a0b0c0d0e0f"]

def chachaUserConfig : EbafUserConfig :=
  { knownUserConfig ebafActionEncrypt .tc with
    crypto :=
      { knownConfig ebafActionEncrypt with
        key := knownIv ++ knownIv
        keyLen := 32
        algo := ebafAlgoChacha20 } }

/-- It is accepted, and `tc_crypto` passes datagrams as they came. -/
theorem started_passes_chacha20 :
    ebafParseArgs chachaArgv = some chachaUserConfig ∧
      ((ebafBpfStart .smooth chachaUserConfig).exec (.initial (.nobody Unit))).err = 0 ∧
      ¬ HandlesTraffic (knownKernel BpfCryptoParams) chachaUserConfig.crypto
        ((ebafBpfStart .smooth chachaUserConfig).exec (.initial (.nobody Unit))).kernel := by
  refine ⟨by decide, rfl, fun hall => ?_⟩
  have attached : ((ebafBpfStart .smooth chachaUserConfig).exec
      (.initial (.nobody Unit))).kernel.interface.sendPath = [.framed .tc] := rfl
  have valid : (PacketProgram.framed .tc).Valid chachaUserConfig.crypto (blockDatagram knownPlain) :=
    datagram_valid (by decide) rfl (by decide) (by decide)
  obtain ⟨c, iv, calls⟩ := hall (.framed .tc) (Or.inr (by rw [attached]; simp))
    (.smooth chachaUserConfig.crypto chachaUserConfig.crypto.params) (fun _ _ => rfl)
    (entering (blockDatagram knownPlain) none) valid
  have none := PacketProgram.run_noCalls (K := knownKernel BpfCryptoParams) (p := .framed .tc)
    (e := ((ebafBpfStart .smooth chachaUserConfig).exec (.initial (.nobody Unit))).kernel.env
      (.framed .tc) (.smooth chachaUserConfig.crypto chachaUserConfig.crypto.params))
    (s := entering (blockDatagram knownPlain) none) (by decide)
    (rfl : _ = some chachaUserConfig.crypto) (by decide)
  rw [AddsCalls, none] at calls
  cases calls

end Ebaf
