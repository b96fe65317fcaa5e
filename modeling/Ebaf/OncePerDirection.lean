import Ebaf.SupportedTraffic

/-! # One transformation per direction

The configured cipher should be applied to a datagram at most once on its way in
and at most once on its way out.  A program applies it at most once, and a sent
datagram meets one program only.  A received datagram meets two when both hooks
are used and the TC program is attached at ingress: nothing in the header tells
the second one that the first has done the work.
-/
namespace Ebaf
open ByteWindow EarlyExit CStrings

variable {Other Ctx : Type}

/-- How often the cipher was applied. -/
def PacketState.applications (s : PacketState Ctx) : Nat := s.cipherCalls.countP CipherCall.ok

/-- A datagram that a peer has encrypted: a framed program, configured for
encryption with AES-CBC and the same port and key, has transformed it. -/
def SentByPeer (K : CryptoKernel Ctx) (port : UInt16) (c : Ctx) (g f : Frame) : Prop :=
  ∃ (p : FramedProgram) (e : Env Ctx) (s : PacketState Ctx) (config : EbafCryptoConfig),
    e.config = some config ∧ config.action = ebafActionEncrypt ∧ config.algo = ebafAlgoCbcAes ∧
      config.udpPort = port ∧ e.slot = some (some c) ∧ s.frame = g ∧
      Transformed s ((p.run K e).exec s) ∧ f = ((p.run K e).exec s).frame

/-- **The cipher is applied at most once in each direction**, and so a receiver
that decrypts framed datagrams restores what a peer has encrypted.  What the TC
program is to restore is a whole datagram that carries the action byte 1. -/
structure CiphersOnce (K : CryptoKernel Ctx) (e : LoadEnv Ctx) (cfg : EbafUserConfig)
    (k : LoaderKernel Other Ctx) : Prop where
  receive : ∀ answers f stats,
    (k.cross K answers k.interface.receivePath (entering f stats)).applications ≤ 1
  send : ∀ answers f stats,
    (k.cross K answers k.interface.sendPath (entering f stats)).applications ≤ 1
  restores : cfg.crypto.action = ebafActionDecrypt → cfg.crypto.algo = ebafAlgoCbcAes →
    (∃ p, .framed p ∈ k.interface.receivePath) → ∀ c, Creates e.ctxEnv cfg.crypto c →
      ∀ g f, SentByPeer K cfg.crypto.udpPort c g f →
        (.framed .tc ∈ k.interface.receivePath → (framedHeader g).action = 1 ∧ ¬ isFragment g) →
        ∀ answers : PacketProgram → Env Ctx, (∀ p call, (answers p).fails call = false) →
          ∀ stats, (k.cross K answers k.interface.receivePath (entering f stats)).frame =
            store g (udpOff g + 6) [0, 0]

section Paths
variable {K : CryptoKernel Ctx} {k : LoaderKernel Other Ctx} {cfg : EbafUserConfig} {c : Ctx}
  {config : EbafCryptoConfig} {s s' : PacketState Ctx}

theorem applications_le {calls : List (CipherCall Ctx)} (h : AddsCalls s s' calls)
    (hlen : calls.length ≤ 1) : s'.applications ≤ s.applications + 1 := by
  rw [PacketState.applications, h, List.countP_append]
  have := List.countP_le_length (p := CipherCall.ok) (l := calls)
  rw [PacketState.applications]
  omega

/-- One program applies the cipher at most once. -/
theorem applications_run (p : PacketProgram) (e : Env Ctx) (s : PacketState Ctx) :
    ((p.run K e).exec s).applications ≤ s.applications + 1 := by
  obtain ⟨calls, hcalls, hlen⟩ := p.run_calls K e s
  exact applications_le hcalls hlen

/-- So does a path of at most one program. -/
theorem cross_short {path : List PacketProgram} (h : path.length ≤ 1)
    (answers : PacketProgram → Env Ctx) (f : Frame) (stats : Option EbafCryptoStats) :
    (k.cross K answers path (entering f stats)).applications ≤ 1 := by
  match path with
  | [] => exact Nat.zero_le _
  | [p] => exact applications_run p _ _

/-- So does a path whose second program does not know the algorithm. -/
theorem cross_unknown {p : PacketProgram} (hp : p ≠ .framed .xdp)
    (halgo : (k.configs (k.refs (.packet p) .config)).algo ≠ ebafAlgoCbcAes)
    (answers : PacketProgram → Env Ctx) (f : Frame) (stats : Option EbafCryptoStats) :
    (k.cross K answers [.framed .xdp, p] (entering f stats)).applications ≤ 1 := by
  let first := ((PacketProgram.framed .xdp).run K
    (k.env (.framed .xdp) (answers (.framed .xdp)))).exec (entering f stats)
  have hfirst : first.applications ≤ 1 := applications_run _ _ _
  have hnone : AddsCalls first ((p.run K (k.env p (answers p))).exec first) [] :=
    PacketProgram.run_noCalls hp rfl halgo
  show ((p.run K (k.env p (answers p))).exec first).applications ≤ 1
  rw [PacketState.applications, hnone, List.append_nil]
  exact hfirst

/-- Where two programs meet a received datagram. -/
theorem receivePrograms_cases (cfg : EbafUserConfig) :
    cfg.receivePrograms.length ≤ 1 ∨ (cfg.hook = .both ∧ cfg.attachPoint = .ingress ∧
      cfg.receivePrograms = [.framed .xdp, cfg.tcProgram]) := by
  rw [EbafUserConfig.receivePrograms]
  cases cfg.hook with
  | xdp => exact Or.inl (by simp [Hook.usesXdp, Hook.usesTc])
  | tc =>
    refine Or.inl ?_
    cases cfg.attachPoint <;> simp [Hook.usesXdp, Hook.usesTc]
  | both =>
    cases cfg.attachPoint with
    | ingress => exact Or.inr ⟨rfl, rfl, rfl⟩
    | egress => exact Or.inl (by simp [Hook.usesXdp, Hook.usesTc])

theorem sendPrograms_length (cfg : EbafUserConfig) : cfg.sendPrograms.length ≤ 1 := by
  rw [EbafUserConfig.sendPrograms]
  split <;> simp

/-- What a peer has sent is a framed datagram whose body it has encrypted. -/
theorem SentByPeer.crypted {port : UInt16} {g f : Frame} (h : SentByPeer K port c g f) :
    IsFramed port g ∧ framedBodyLen g % 16 = 0 ∧ f = framedCrypt K .encrypt c g := by
  obtain ⟨p, e, s, config, hconfig, henc, halgo, rfl, hkey, rfl, hsent, rfl⟩ := h
  obtain ⟨haccepts, hframe⟩ := p.sent hconfig henc hkey hsent
  exact ⟨haccepts.framed, haccepts.aligned halgo, hframe⟩

/-- A program that is alone on the path restores it. -/
theorem restores_alone {p : FramedProgram} {g f : Frame} {answers : Env Ctx}
    (hpeer : SentByPeer K config.udpPort c g f) (hdec : config.action = ebafActionDecrypt)
    (halgo : config.algo = ebafAlgoCbcAes)
    (htc : p = .tc → (framedHeader g).action = 1 ∧ ¬ isFragment g)
    (hok : ∀ call, answers.fails call = false) (hinv : K.Inverts c fun n => n % 16 = 0)
    (hframe : s.frame = f) :
    ((p.run K (answers.keyed config c)).exec s).frame = store g (udpOff g + 6) [0, 0] := by
  obtain ⟨framed, aligned, hcrypt⟩ := hpeer.crypted
  have takes : p.Takes config g := ⟨framed, fun _ => aligned, fun hp => ⟨halgo, htc hp⟩⟩
  have nothing : NothingFails (answers.keyed config c) := fun call _ => hok call
  exact (FramedProgram.received rfl hdec rfl nothing.dynptrs (hok .cipher) takes
    (hframe.trans hcrypt) fun iv body hbody => hinv iv body (hbody halgo)).2.2

/-! ## Two programs on the receive path -/

/-- A framed datagram is one for the TC program after the XDP program, too. -/
theorem PacketProgram.Valid.crypt {p q : FramedProgram} {f : Frame}
    (h : (PacketProgram.framed p).Valid config f) (d : Direction) :
    (PacketProgram.framed q).Valid config (framedCrypt K d c f) := by
  obtain ⟨hf, hihl, hwhole, hmarked, haligned⟩ := h
  have same := framedCrypt_sameHeaders (K := K) (f := f) d c
  have hfrag : ipFragOff (framedCrypt K d c f) = ipFragOff f :=
    same.be16_eq (by rw [udpOff, hihl, ipOff]; omega)
  refine ⟨hf.of_sameHeaders same, same.ipIhl.trans hihl, ?_, ?_, ?_⟩
  · rw [isFragment, hfrag]
    exact hwhole
  · rw [same.framedHeader]
    exact hmarked
  · rw [same.framedBodyLen]
    exact haligned

/-- It is accepted by the transparent program. -/
theorem PacketProgram.Valid.isTransparent {p : FramedProgram} {f : Frame}
    (h : (PacketProgram.framed p).Valid config f) : IsTransparent config.udpPort f := by
  obtain ⟨hf, hihl, hwhole, -, -⟩ := h
  exact ⟨hf.proto, hihl, hwhole, hf.udp, hf.port, hf.udpLen, hf.inside⟩

/-- The header inside a body. -/
theorem read_framedBody {f : Frame} {i : Nat} (h : i + EbafCryptoHeader.size ≤ framedBodyLen f) :
    EbafCryptoHeader.read f (framedBodyOff f + i) = EbafCryptoHeader.read (framedBody f) i :=
  EbafCryptoHeader.read_congr fun j hj => by
    rw [framedBody, byteAt_load (by omega), Nat.add_assoc]

/-- Eight bytes and a trailer for a body of 32. -/
def nested : List UInt8 := List.replicate 8 0 ++ (newHdr 32 zeroBlock).bytes

theorem read_nested : EbafCryptoHeader.read nested 8 = newHdr 32 zeroBlock := by decide

theorem length_nested : nested.length = 32 := by decide

/-- A datagram whose body decrypts to something that ends with a trailer. -/
def nestedDatagram (K : CryptoKernel Ctx) (c : Ctx) (port : UInt16) : Frame :=
  datagram port (framedPayload zeroBlock (K.crypt .encrypt c zeroBlock nested))

theorem length_nestedBody : (K.crypt .encrypt c zeroBlock nested).length = 32 :=
  (K.length_crypt ..).trans length_nested

theorem nestedDatagram_fits :
    Fits (framedPayload zeroBlock (K.crypt .encrypt c zeroBlock nested)) := by
  rw [Fits, length_framedPayload, length_nestedBody]
  decide

theorem nestedDatagram_valid {p : FramedProgram} :
    (PacketProgram.framed p).Valid config (nestedDatagram K c config.udpPort) := by
  refine datagram_valid nestedDatagram_fits rfl (fun h => ?_) (by rw [length_nestedBody])
  have := length_nestedBody (K := K) (c := c)
  rw [h] at this
  cases this

/-- Decrypting it leaves the eight bytes and the trailer. -/
theorem framedBody_decrypted (hinv : K.Inverts c fun n => n % 16 = 0) {port : UInt16} :
    framedBody (framedCrypt K .decrypt c (nestedDatagram K c port)) = nested := by
  have hiv : framedIv (nestedDatagram K c port) = zeroBlock :=
    congrArg EbafCryptoHeader.iv (framedHeader_datagram rfl)
  have hbody : framedBody (nestedDatagram K c port) = K.crypt .encrypt c zeroBlock nested :=
    framedBody_datagram nestedDatagram_fits
  have hlen : framedBodyLen (nestedDatagram K c port) = nested.length := by
    rw [nestedDatagram, framedBodyLen_datagram nestedDatagram_fits, K.length_crypt]
  have hf : IsFramed port (nestedDatagram K c port) :=
    datagram_isFramed nestedDatagram_fits rfl fun h => by
      have := length_nestedBody (K := K) (c := c)
      rw [h] at this
      cases this
  rw [framedCrypt, hiv, hbody, hinv zeroBlock nested rfl]
  exact framedBody_withBody hf hlen.symm

theorem decrypted_hasTrailer (hinv : K.Inverts c fun n => n % 16 = 0) {port : UInt16} :
    HasTrailer (framedCrypt K .decrypt c (nestedDatagram K c port)) := by
  have same := framedCrypt_sameHeaders (K := K) (f := nestedDatagram K c port) .decrypt c
  have hpayload : payloadLen (framedCrypt K .decrypt c (nestedDatagram K c port)) = 56 := by
    rw [same.payloadLen, nestedDatagram, payloadLen_datagram nestedDatagram_fits,
      length_framedPayload, length_nestedBody]
    rfl
  have hinner : framedBody (framedCrypt K .decrypt c (nestedDatagram K c port)) = nested :=
    framedBody_decrypted hinv
  generalize framedCrypt K .decrypt c (nestedDatagram K c port) = g at hpayload hinner
  have hbody : framedBodyLen g = 32 := congrArg (· - EbafCryptoHeader.size) hpayload
  have hopened : openedLen g = 32 := hbody
  -- the trailer starts behind the eight bytes
  have htail : tailHdr g = newHdr 32 zeroBlock := by
    have hread := read_framedBody (f := g) (i := 8) (by rw [hbody]; decide)
    rw [hinner, read_nested, framedBodyOff, Nat.add_assoc] at hread
    rw [tailHdr, hopened]
    exact hread
  constructor
  · rw [hpayload]
    decide
  · rw [htail]
    rfl
  · rw [htail]
    rfl
  · rw [hopened]
    decide
  · rw [hopened]
  · rw [htail, hopened]
    rfl

/-- **A datagram on which both programs of the path do their work.** -/
theorem exists_twice (config : EbafCryptoConfig) (p : PacketProgram)
    (hinv : K.Inverts c fun n => n % 16 = 0) :
    ∃ f, (PacketProgram.framed .xdp).Valid config f ∧
      p.Valid config (framedCrypt K (transparentDirection config) c f) := by
  have hfits : Fits (framedPayload zeroBlock zeroBlock) := by decide
  have plain : ∀ q : FramedProgram, (PacketProgram.framed q).Valid config
      (datagram config.udpPort (framedPayload zeroBlock zeroBlock)) :=
    fun _ => datagram_valid hfits rfl (by decide) (by decide)
  cases p with
  | framed q => exact ⟨_, plain .xdp, (plain .xdp).crypt _⟩
  | transparent =>
    by_cases henc : config.action = ebafActionEncrypt
    · refine ⟨_, plain .xdp, ((plain .xdp).crypt (q := .xdp) _).isTransparent, ?_⟩
      rw [if_pos henc, (framedCrypt_sameHeaders _ c).payloadLen, payloadLen_datagram hfits]
      decide
    · refine ⟨nestedDatagram K c config.udpPort, nestedDatagram_valid,
        (nestedDatagram_valid.crypt (p := .xdp) (q := .xdp) _).isTransparent, ?_⟩
      rw [if_neg henc, transparentDirection, if_neg henc]
      exact decrypted_hasTrailer hinv

/-- A datagram of its mode is transformed by a framed program. -/
theorem PacketProgram.Valid.transformed {p : FramedProgram} {answers : Env Ctx}
    (h : (PacketProgram.framed p).Valid config s.frame)
    (haction : config.action = ebafActionEncrypt ∨ config.action = ebafActionDecrypt)
    (halgo : config.algo = ebafAlgoCbcAes) (hok : NothingFails answers)
    (hcipher : answers.fails .cipher = false) :
    ((p.run K (answers.keyed config c)).exec s).frame =
      framedCrypt K (transparentDirection config) c s.frame := by
  have handed := handed_of_accepts (c := c) hok haction (h.accepts haction halgo)
  rw [(p.spec K (answers.keyed config c) s).transformed_of_handed handed hcipher]

/-- Both programs of the path apply the cipher to the datagram of `exists_twice`. -/
theorem applications_twice (answers : Env Ctx) {p : PacketProgram}
    (haction : config.action = ebafActionEncrypt ∨ config.action = ebafActionDecrypt)
    (halgo : config.algo = ebafAlgoCbcAes) (hok : ∀ call, answers.fails call = false) {f : Frame}
    (hfirst : (PacketProgram.framed .xdp).Valid config f)
    (hsecond : p.Valid config (framedCrypt K (transparentDirection config) c f)) :
    ((p.run K (answers.keyed config c)).exec (((PacketProgram.framed .xdp).run K
      (answers.keyed config c)).exec (entering f none))).applications = 2 := by
  have hnothing : NothingFails answers := fun call _ => hok call
  obtain ⟨c₁, iv₁, hcall₁⟩ := aes_handsOver (K := K) (c := c) (s := entering f none)
    hnothing haction halgo hfirst
  have hframe := hfirst.transformed (K := K) (c := c) (s := entering f none) haction halgo
    hnothing (hok _)
  have hsecond' : p.Valid config (((PacketProgram.framed .xdp).run K
      (answers.keyed config c)).exec (entering f none)).frame := by
    rw [PacketProgram.run, hframe]
    exact hsecond
  obtain ⟨c₂, iv₂, hcall₂⟩ := aes_handsOver (K := K) (c := c) hnothing haction halgo hsecond'
  rw [AddsCalls] at hcall₁ hcall₂
  rw [PacketState.applications, hcall₂, hcall₁, hok]
  rfl

end Paths

section Started
variable {K : CryptoKernel Ctx} {e : LoadEnv Ctx} {cfg : EbafUserConfig} {o : Others Other}
  {s : LoaderState Other Ctx}

/-- Where two programs with AES-CBC are on the receive path, some datagram meets
the cipher twice. -/
theorem Running.twice (running : Running e cfg o s)
    (haction : cfg.crypto.action = ebafActionEncrypt ∨ cfg.crypto.action = ebafActionDecrypt)
    (halgo : cfg.crypto.algo = ebafAlgoCbcAes)
    (hinv : ∀ c, Creates e.ctxEnv cfg.crypto c → K.Inverts c fun n => n % 16 = 0)
    (hpath : cfg.receivePrograms = [.framed .xdp, cfg.tcProgram]) :
    ∃ answers f, (s.kernel.cross K answers s.kernel.interface.receivePath
      (entering f none)).applications = 2 := by
  obtain ⟨c, hcreates, henv⟩ := running.env
  obtain ⟨f, hfirst, hsecond⟩ := exists_twice cfg.crypto cfg.tcProgram (hinv c hcreates)
  have hxdp : PacketProgram.framed .xdp ∈ cfg.receivePrograms := by
    rw [hpath]
    exact List.mem_cons_self
  have htc : cfg.tcProgram ∈ cfg.receivePrograms := by
    rw [hpath]
    exact List.mem_cons_of_mem _ (List.mem_singleton_self _)
  refine ⟨fun _ => .smooth cfg.crypto c, f, ?_⟩
  rw [running.receivePath, hpath, LoaderKernel.cross, List.foldl_cons, List.foldl_cons,
    List.foldl_nil, henv _ (Or.inl hxdp), henv _ (Or.inl htc)]
  exact applications_twice _ haction halgo (fun _ => rfl) hfirst hsecond

/-- Otherwise a received datagram meets it once at most. -/
theorem Running.once (running : Running e cfg o s)
    (hcond : ¬ (cfg.hook = .both ∧ cfg.attachPoint = .ingress ∧ cfg.crypto.algo = ebafAlgoCbcAes))
    (answers : PacketProgram → Env Ctx) (f : Frame) (stats : Option EbafCryptoStats) :
    (s.kernel.cross K answers s.kernel.interface.receivePath
      (entering f stats)).applications ≤ 1 := by
  rw [running.receivePath]
  rcases receivePrograms_cases cfg with hshort | ⟨hhook, hpoint, hpath⟩
  · exact cross_short hshort answers f stats
  · -- two programs, but the second one does not know the algorithm
    have htc : cfg.tcProgram ∈ cfg.receivePrograms := by
      rw [hpath]
      exact List.mem_cons_of_mem _ (List.mem_singleton_self _)
    obtain ⟨c, -, henv⟩ := running.env
    have hconfig : some (s.kernel.configs (s.kernel.refs (.packet cfg.tcProgram) .config)) =
        some cfg.crypto := congrArg Env.config (henv _ (Or.inl htc) (answers cfg.tcProgram))
    rw [hpath]
    refine cross_unknown (tcProgram_ne_xdp cfg) ?_ answers f stats
    rw [Option.some.inj hconfig]
    exact fun halgo => hcond ⟨hhook, hpoint, halgo⟩

/-- With AES-CBC a framed program is then alone on the receive path. -/
theorem receivePrograms_alone {p : PacketProgram} (halgo : cfg.crypto.algo = ebafAlgoCbcAes)
    (hcond : ¬ (cfg.hook = .both ∧ cfg.attachPoint = .ingress ∧ cfg.crypto.algo = ebafAlgoCbcAes))
    (hp : p ∈ cfg.receivePrograms) : cfg.receivePrograms = [p] := by
  rcases receivePrograms_cases cfg with hshort | ⟨hhook, hpoint, -⟩
  · obtain ⟨q, hq⟩ := List.length_eq_one_iff.mp
      (Nat.le_antisymm hshort (List.length_pos_of_mem hp))
    rw [hq] at hp ⊢
    rw [List.mem_singleton.mp hp]
  · exact absurd ⟨hhook, hpoint, halgo⟩ hcond

end Started

/-- **When the cipher is applied once.**  After a successful start for an
accepted argument vector, the cipher is applied at most once in each direction,
and framed datagrams are restored, unless both hooks are used, the TC program
is attached at ingress and the algorithm is AES-CBC. -/
theorem started_ciphersOnce_iff (K : CryptoKernel Ctx) (argv : List CString)
    (cfg : EbafUserConfig) (e : LoadEnv Ctx) (o : Others Other)
    (hparse : ebafParseArgs argv = some cfg)
    (hstart : ((ebafBpfStart e cfg).exec (.initial o)).err = 0)
    (hinv : ∀ c, Creates e.ctxEnv cfg.crypto c → cfg.crypto.algo = ebafAlgoCbcAes →
      K.Inverts c fun n => n % 16 = 0) :
    CiphersOnce K e cfg ((ebafBpfStart e cfg).exec (.initial o)).kernel ↔
      ¬ (cfg.hook = .both ∧ cfg.attachPoint = .ingress ∧ cfg.crypto.algo = ebafAlgoCbcAes) := by
  have wellFormed := ebafParseArgs_wellFormed hparse
  have running := running_of_started hstart
  generalize (ebafBpfStart e cfg).exec (.initial o) = s at running
  constructor
  · rintro hall ⟨hhook, hpoint, halgo⟩
    have hpath : cfg.receivePrograms = [.framed .xdp, cfg.tcProgram] := by
      rw [EbafUserConfig.receivePrograms, hhook, hpoint]
      rfl
    obtain ⟨answers, f, htwice⟩ := running.twice (K := K) wellFormed.action halgo
      (fun c hc => hinv c hc halgo) hpath
    have honce := hall.receive answers f none
    rw [htwice] at honce
    exact absurd honce (by decide)
  · intro hcond
    refine ⟨running.once hcond, fun answers f stats => ?_, ?_⟩
    · rw [running.sendPath]
      exact cross_short (sendPrograms_length cfg) answers f stats
    · intro hdec halgo hframed c hcreates g f hpeer htc answers hok stats
      obtain ⟨c', hcreates', henv⟩ := running.env
      obtain rfl := hcreates'.unique hcreates
      obtain ⟨p, hp⟩ := hframed
      rw [running.receivePath] at hp htc ⊢
      rw [receivePrograms_alone halgo hcond hp, LoaderKernel.cross, List.foldl_cons,
        List.foldl_nil, henv _ (Or.inl hp)]
      exact restores_alone hpeer hdec halgo (fun h => htc (h ▸ hp)) (hok _)
        (hinv _ hcreates halgo) rfl

/-- Decryption at the XDP hook. -/
theorem started_ciphersOnce_of_xdp :
    CiphersOnce (knownKernel _) .smooth (knownUserConfig ebafActionDecrypt .xdp)
      ((ebafBpfStart .smooth (knownUserConfig ebafActionDecrypt .xdp)).exec
        (.initial (.nobody Unit))).kernel := by
  refine (started_ciphersOnce_iff (knownKernel _) (knownArgv (lit "decrypt") (lit "xdp")) _ .smooth
    (.nobody Unit) (by decide) rfl fun _ _ _ => knownKernel_inverts).mpr ?_
  rintro ⟨hook, -⟩
  cases hook

/-- Decryption at both hooks: both programs decrypt. -/
theorem started_decrypts_twice :
    ebafParseArgs (knownArgv (lit "decrypt") (lit "both")) =
        some (knownUserConfig ebafActionDecrypt .both) ∧
      ((ebafBpfStart .smooth (knownUserConfig ebafActionDecrypt .both)).exec
        (.initial (.nobody Unit))).err = 0 ∧
      ¬ CiphersOnce (knownKernel _) .smooth (knownUserConfig ebafActionDecrypt .both)
        ((ebafBpfStart .smooth (knownUserConfig ebafActionDecrypt .both)).exec
          (.initial (.nobody Unit))).kernel := by
  refine ⟨by decide, rfl, fun hall => ?_⟩
  let c := (knownConfig ebafActionDecrypt).params
  let answers : Env BpfCryptoParams := .smooth (knownConfig ebafActionDecrypt) c
  have once := hall.receive (fun _ => answers) (blockDatagram knownCipher) none
  generalize hkernel : ((ebafBpfStart .smooth (knownUserConfig ebafActionDecrypt .both)).exec
    (.initial (.nobody Unit))).kernel = kernel at once
  have attached : kernel.interface.receivePath = [.framed .xdp, .framed .tc] := by
    rw [← hkernel]
    rfl
  have env : ∀ p, p = .framed .xdp ∨ p = .framed .tc →
      kernel.env p answers = answers.keyed (knownConfig ebafActionDecrypt) c := by
    rintro p (rfl | rfl) <;> rw [← hkernel] <;> rfl
  have valid : (PacketProgram.framed .xdp).Valid (knownConfig ebafActionDecrypt)
      (blockDatagram knownCipher) :=
    datagram_valid (by decide) rfl (by decide) (by decide)
  have twice := applications_twice (K := knownKernel _) (c := c) (p := .framed .tc) answers
    (Or.inr rfl) rfl (fun _ => rfl) valid (valid.crypt _)
  rw [attached, LoaderKernel.cross, List.foldl_cons, List.foldl_cons, List.foldl_nil,
    env _ (Or.inl rfl), env _ (Or.inr rfl), twice] at once
  exact absurd once (by decide)

end Ebaf
