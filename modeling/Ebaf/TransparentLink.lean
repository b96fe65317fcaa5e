import Ebaf.HostLink
import Ebaf.TransparentRoundTrip

/-! # The transparent link

Two hosts run in transparent mode, one encrypting what it sends and the other one
decrypting what it receives.  Whatever the network in between loses, repeats or
reorders, the receiver's stack gets back nothing but the datagrams that were handed
down, and of those for the port nothing but sealed ones is on the wire, unless they are
empty or too large.
-/
namespace Ebaf
open ByteWindow CStrings

variable {Other Other' Ctx : Type}

instance (port : UInt16) (f : Frame) : Decidable (IsTransparent port f) :=
  decidable_of_iff (ethProto f = ethPIp ∧ ipIhl f = 5 ∧ ¬ isFragment f ∧ ipProtocol f = ipprotoUdp ∧
      udpDest f = port.toNat ∧ 8 ≤ udpLen f ∧ payloadOff f + payloadLen f ≤ f.length)
    ⟨fun ⟨hproto, hihl, hwhole, hudp, hport, hlen, hin⟩ =>
      ⟨hproto, hihl, hwhole, hudp, hport, hlen, hin⟩,
    fun h => ⟨h.proto, h.ihl, h.whole, h.udp, h.port, h.udpLen, h.inside⟩⟩

instance (port : UInt16) (f : Frame) : Decidable (IsPlain port f) :=
  decidable_of_iff (IsTransparent port f ∧ payloadLen f ≠ 0 ∧
      payloadLen f ≤ ebafMaxTransparentPayload ∧ ipTotLen f = 20 + udpLen f)
    ⟨fun ⟨hf, hne, hsmall, htotal⟩ => ⟨hf, hne, hsmall, htotal⟩,
    fun h => ⟨h.toIsTransparent, h.nonempty, h.small, h.total⟩⟩

instance (f : Frame) : Decidable (HasTrailer f) :=
  decidable_of_iff (EbafCryptoHeader.size ≤ payloadLen f ∧ (tailHdr f).magic = ebafCryptoMagic ∧
      (tailHdr f).version = ebafCryptoVersion ∧ openedLen f ≠ 0 ∧ openedLen f % 16 = 0 ∧
      (tailHdr f).payloadLen = openedLen f)
    ⟨fun ⟨hroom, hmagic, hversion, hne, haligned, hlength⟩ =>
      ⟨hroom, hmagic, hversion, hne, haligned, hlength⟩,
    fun h => ⟨h.room, h.magic, h.version, h.nonempty, h.aligned, h.length⟩⟩

/-! ## The initialization vectors -/

/-- The bytes of the clock, of which the IV holds two copies. -/
theorem getElem?_fillIv (now : UInt64) {i : Nat} (hi : i < 8) :
    (fillIv now)[i]? = some (UInt8.ofNat (now.toNat >>> (i * 8))) := by
  have hmask : i &&& 7 = i := by
    rw [show 7 = 2 ^ 3 - 1 from rfl, Nat.and_two_pow_sub_one_eq_mod]
    exact Nat.mod_eq_of_lt hi
  have hlt : i < ebafCryptoIvBytes := Nat.lt_of_lt_of_le hi (by decide)
  rw [fillIv, List.getElem?_map, List.getElem?_range hlt, Option.map_some, hmask]

/-- A number is known by its bytes. -/
theorem eq_of_bytes {n x y : Nat} (hx : x < 256 ^ n) (hy : y < 256 ^ n)
    (h : ∀ i < n, x / 256 ^ i % 256 = y / 256 ^ i % 256) : x = y := by
  induction n generalizing x y with
  | zero => omega
  | succ n ih =>
    have hlow : x % 256 = y % 256 := by simpa using h 0 (Nat.succ_pos n)
    have hhigh : x / 256 = y / 256 := by
      rw [Nat.pow_succ'] at hx hy
      refine ih (Nat.div_lt_of_lt_mul hx) (Nat.div_lt_of_lt_mul hy) fun i hi => ?_
      have hnext := h (i + 1) (Nat.succ_lt_succ hi)
      rwa [Nat.pow_succ', ← Nat.div_div_eq_div_mul, ← Nat.div_div_eq_div_mul] at hnext
    omega

/-- **The same IV is the same clock reading.** -/
theorem fillIv_injective : Function.Injective fillIv := by
  intro now now' h
  refine UInt64.toNat_inj.mp (eq_of_bytes (n := 8) now.toNat_lt now'.toNat_lt fun i hi => ?_)
  have hbyte := congrArg (fun l => l[i]?) h
  simp only [getElem?_fillIv _ hi, Option.some.injEq] at hbyte
  have hnat := congrArg UInt8.toNat hbyte
  simp only [UInt8.toNat_ofNat', Nat.shiftRight_eq_div_pow] at hnat
  rw [show 256 ^ i = 2 ^ (i * 8) by rw [Nat.mul_comm, Nat.pow_mul]]
  exact hnat

/-! ## The mode -/

section Mode
variable {cfg cfg' : EbafUserConfig} {c : Ctx} {K : CryptoKernel Ctx}

/-- **What the sender does not seal** and the receiver does not take for sealed: it is
not for the port, or it is empty or too large and has no trailer. -/
def Unsealed (port : UInt16) (f : Frame) : Prop :=
  ¬ IsTransparent port f ∨
    (payloadLen f = 0 ∨ ebafMaxTransparentPayload < payloadLen f) ∧ ¬ HasTrailer f

theorem Unsealed.not_plain {port : UInt16} {f : Frame} (h : Unsealed port f) : ¬ IsPlain port f := by
  intro hplain
  rcases h with hf | ⟨hlen, -⟩
  · exact hf hplain.toIsTransparent
  · have hne := hplain.nonempty
    have hsmall := hplain.small
    omega

/-- Such a datagram passes the sender. -/
theorem Unsealed.passes {config : EbafCryptoConfig} {e : Env Ctx} {s : PacketState Ctx}
    (h : Unsealed config.udpPort s.frame) (hconfig : e.config = some config)
    (henc : config.action = ebafActionEncrypt) : s.Refused ((tcTransparent K e).exec s) := by
  have hgrow : TransparentAccepts s.frame config → ¬ CanGrow e s.frame := by
    rintro haccepts ⟨hne, hsmall, -⟩
    rcases h with hf | ⟨hlen, -⟩
    · exact hf haccepts.datagram
    · omega
  generalize hs' : (tcTransparent K e).exec s = s'
  cases hs' ▸ tcTransparent_encrypt_spec (s := s) hconfig henc with
  | refused _ hs => exact hs
  | stranded haccepts hg _ _ => exact absurd hg (hgrow haccepts)
  | cipherFailed _ hready _ _ => exact absurd hready.grows (hgrow hready.accepted)
  | ivLost _ hready _ _ _ _ _ _ => exact absurd hready.grows (hgrow hready.accepted)
  | sealed _ hready _ _ _ => exact absurd hready.grows (hgrow hready.accepted)

/-- It passes the receiver, too. -/
theorem Unsealed.passes' {config : EbafCryptoConfig} {e : Env Ctx} {s : PacketState Ctx}
    (h : Unsealed config.udpPort s.frame) (hconfig : e.config = some config)
    (hdec : config.action = ebafActionDecrypt) : s.Refused ((tcTransparent K e).exec s) := by
  have hopen : ∀ c, ¬ ReadyToOpen e config s.frame c := by
    intro c hready
    rcases h with hf | ⟨-, htrailer⟩
    · exact hf hready.accepted.datagram
    · exact htrailer hready.trailer
  generalize hs' : (tcTransparent K e).exec s = s'
  cases hs' ▸ tcTransparent_decrypt_spec (s := s) hconfig hdec with
  | refused _ hs => exact hs
  | cipherFailed c hready _ _ => exact absurd hready (hopen c)
  | undone c hready _ _ _ => exact absurd hready (hopen c)
  | opened c hready _ _ _ _ _ => exact absurd hready (hopen c)

/-- The sender seals. -/
theorem transparent_seals (hpair : Paired cfg cfg' .transparent .transparent) {e : Env Ctx}
    {f : Frame} {stats : Option EbafCryptoStats} (hready : HelpersOk e)
    (hplain : IsPlain cfg.crypto.udpPort f) :
    ((tcTransparent K (e.keyed cfg.crypto c)).exec (entering f stats)).frame =
        sealFrame K c (fillIv e.ivClock) f ∧
      ((tcTransparent K (e.keyed cfg.crypto c)).exec (entering f stats)).stats =
        stats.map (EbafCryptoStats.account .cryptoOk) := by
  have hok : HelpersOk (e.keyed cfg.crypto c) := hready
  obtain ⟨hframe, -, hstats⟩ := sealed_of_plain (K := K) (s := entering f stats) (c := c)
    (e := e.keyed cfg.crypto c) rfl hpair.encrypts hpair.algo hplain rfl hok
  exact ⟨hframe, hstats⟩

/-- The receiver opens. -/
theorem transparent_opens (hpair : Paired cfg cfg' .transparent .transparent)
    (hinv : K.Inverts c fun n => n % 16 = 0) {e : Env Ctx} {clock : UInt64} {f : Frame}
    {stats : Option EbafCryptoStats} (hready : HelpersOk e)
    (hplain : IsPlain cfg.crypto.udpPort f) :
    Restored f ((tcTransparent K (e.keyed cfg'.crypto c)).exec
        (entering (sealFrame K c (fillIv clock) f) stats)).frame ∧
      ((tcTransparent K (e.keyed cfg'.crypto c)).exec
        (entering (sealFrame K c (fillIv clock) f) stats)).stats =
          stats.map (EbafCryptoStats.account .cryptoOk) := by
  have hok : HelpersOk (e.keyed cfg'.crypto c) := hready
  have hplain' : IsPlain cfg'.crypto.udpPort f := by
    rw [hpair.port]
    exact hplain
  have hiv : (fillIv clock).length = ebafCryptoIvBytes := length_fillIv clock
  obtain ⟨hframe, -, hstats⟩ := opened_of_sealed (K := K) (c := c) (e := e.keyed cfg'.crypto c)
    (s := entering (sealFrame K c (fillIv clock) f) stats) rfl hpair.decrypts hpair.algo' hplain'
    hiv rfl rfl hok hinv
  refine ⟨?_, hstats⟩
  rw [hframe]
  exact restored hplain' hiv hinv

/-- **Transparent mode**: sealed on the wire, restored at the other end. -/
def transparentMode (hpair : Paired cfg cfg' .transparent .transparent)
    (hinv : K.Inverts c fun n => n % 16 = 0) :
    LinkMode K cfg.crypto cfg'.crypto c .transparent .transparent where
  Plain := IsPlain cfg.crypto.udpPort
  Foreign := Unsealed cfg.crypto.udpPort
  Ready := HelpersOk
  wire clock f := sealFrame K c (fillIv clock) f
  Restores := Restored
  plainDecidable f := inferInstanceAs (Decidable (IsPlain cfg.crypto.udpPort f))
  apart f hforeign := hforeign.not_plain
  seals e f stats hready hplain := transparent_seals hpair hready hplain
  opens e clock f stats hready hplain := transparent_opens hpair hinv hready hplain
  passes e f stats hforeign := hforeign.passes rfl hpair.encrypts
  passes' e f stats hforeign :=
    have hforeign' : Unsealed cfg'.crypto.udpPort f := by rwa [hpair.port]
    hforeign'.passes' rfl hpair.decrypts

/-- The clock a datagram is sealed with. -/
def Handover.clock (a : Handover Ctx) : UInt64 := (a.answers .transparent).ivClock

variable {hpair : Paired cfg cfg' .transparent .transparent}
  {hinv : K.Inverts c fun n => n % 16 = 0}

/-- **What is on the wire sealed**: a datagram for the port with a trailer. -/
def IsSealed (port : UInt16) (g : Frame) : Prop := IsTransparent port g ∧ HasTrailer g

instance (port : UInt16) (g : Frame) : Decidable (IsSealed port g) :=
  inferInstanceAs (Decidable (_ ∧ _))

/-- It is what the sender seals, and it carries the IV made from the clock. -/
theorem isSealed_onWire {a : Handover Ctx} {g : Frame}
    (hwire : (transparentMode hpair hinv).OnWire a g) :
    (IsPlain cfg.crypto.udpPort a.frame ↔ IsSealed cfg.crypto.udpPort g) ∧
      (IsPlain cfg.crypto.udpPort a.frame → (tailHdr g).iv = fillIv a.clock) := by
  rcases hwire with ⟨hplain, rfl⟩ | ⟨hforeign, rfl⟩
  · have hplain : IsPlain cfg.crypto.udpPort a.frame := hplain
    have hiv : (fillIv a.clock).length = ebafCryptoIvBytes := length_fillIv _
    exact ⟨iff_of_true hplain ⟨sealFrame_isTransparent hplain, sealFrame_hasTrailer hplain hiv⟩,
      fun _ => congrArg EbafCryptoHeader.iv (tailHdr_sealFrame hplain hiv)⟩
  · have hforeign : Unsealed cfg.crypto.udpPort a.frame := hforeign
    refine ⟨iff_of_false hforeign.not_plain ?_, fun hplain => absurd hplain hforeign.not_plain⟩
    rintro ⟨htransparent, htrailer⟩
    rcases hforeign with hn | ⟨-, hn⟩
    · exact hn htransparent
    · exact hn htrailer

/-- The IVs on the wire are those of the datagrams that are sealed. -/
theorem ivs_onWire {l : List (Handover Ctx)} {l' : List Frame}
    (h : List.Forall₂ (transparentMode hpair hinv).OnWire l l') :
    ((l'.filter fun g => IsSealed cfg.crypto.udpPort g).map fun g => (tailHdr g).iv) =
      ((l.filter fun a => IsPlain cfg.crypto.udpPort a.frame).map Handover.clock).map fillIv := by
  induction h with
  | nil => rfl
  | @cons a g l l' hwire _ ih =>
    obtain ⟨hsealed, hiv⟩ := isSealed_onWire hwire
    rw [List.filter_cons, List.filter_cons]
    by_cases hplain : IsPlain cfg.crypto.udpPort a.frame
    · rw [if_pos (decide_eq_true (hsealed.mp hplain)), if_pos (decide_eq_true hplain), List.map_cons,
        List.map_cons, List.map_cons, hiv hplain, ih]
    · rw [if_neg fun h => hplain (hsealed.mpr (of_decide_eq_true h)),
        if_neg fun h => hplain (of_decide_eq_true h), ih]

end Mode

/-- **The transparent link.**  Two hosts have been started, one to encrypt what it
sends and one to decrypt what it receives, in transparent mode and for the same port
and key.  Each datagram handed down is one the sender seals or one both programs leave,
and no call of theirs fails.  In every run of the network every frame that arrived is a
datagram handed down, restored, every frame in flight is one of them, sealed, and both
hosts have counted exactly these as transformed; what is not for the port travels as it
is.  Of all that is ever on the wire, if nothing is repeated, no two sealed datagrams
have one IV exactly if no clock reading was used twice. -/
theorem transparent_link (K : CryptoKernel Ctx) (cfg cfg' : EbafUserConfig)
    (hpair : Paired cfg cfg' .transparent .transparent) (e e' : LoadEnv Ctx) (o : Others Other)
    (o' : Others Other') (hcreate : e'.ctxEnv.create = e.ctxEnv.create)
    (hstart : ((ebafBpfStart e cfg).exec (.initial o)).err = 0)
    (hstart' : ((ebafBpfStart e' cfg').exec (.initial o')).err = 0) (c : Ctx)
    (hc : Creates e.ctxEnv cfg.crypto c) (hinv : K.Inverts c fun n => n % 16 = 0)
    (st₀ st₀' : EbafCryptoStats)
    (acts : List (Channel.Act (Handover Ctx) (PacketProgram → Env Ctx)))
    (hsealed : ∀ a ∈ Channel.requests acts,
      IsPlain cfg.crypto.udpPort a.frame ∨ Unsealed cfg.crypto.udpPort a.frame)
    (hready : ∀ a ∈ Channel.requests acts, HelpersOk (a.answers .transparent))
    (hready' : ∀ answers ∈ Channel.arrivals acts, HelpersOk (answers .transparent))
    (t : Channel.State (Option EbafCryptoStats) (Option EbafCryptoStats) Frame Frame)
    (hrun : Runs.run (Channel.step (hostLink K ((ebafBpfStart e cfg).exec (.initial o)).kernel
      ((ebafBpfStart e' cfg').exec (.initial o')).kernel)) (.init (some st₀) (some st₀')) acts =
        some t) :
    (∃ w, Channel.Account ((transparentMode hpair hinv).terms st₀ st₀') acts t w) ∧
      (acts.countP Channel.Act.isDoubling = 0 →
        ((((Channel.wire (hostLink K ((ebafBpfStart e cfg).exec (.initial o)).kernel
            ((ebafBpfStart e' cfg').exec (.initial o')).kernel) (.init (some st₀) (some st₀')) acts).filter
              fun g => IsSealed cfg.crypto.udpPort g).map fun g => (tailHdr g).iv).Nodup ↔
          (((Channel.requests acts).filter fun a => IsPlain cfg.crypto.udpPort a.frame).map
            Handover.clock).Nodup)) := by
  have hcovers : ∀ act ∈ acts, ((transparentMode hpair hinv).terms st₀ st₀').Covers act :=
    Channel.Terms.covers (fun a ha => ⟨hready a ha, hsealed a ha⟩) hready'
  refine ⟨hpair.exists_account hcreate hstart hstart' hc (transparentMode hpair hinv) st₀ st₀'
    hcovers hrun, fun hsingle => ?_⟩
  obtain ⟨l, hwire, hl⟩ := hpair.exists_wire hcreate hstart hstart' hc (transparentMode hpair hinv)
    st₀ st₀' hcovers hrun
  rw [ivs_onWire hwire, List.nodup_map_iff fillIv_injective, hl hsingle]

/-- A configuration of the link for which everything else is left to its default. -/
def linkConfig (action : UInt32) : EbafUserConfig :=
  { knownUserConfig action .tc with
    crypto := { knownConfig action with flags := ebafCryptoFTransparent } }

theorem linkConfig_paired :
    Paired (linkConfig ebafActionEncrypt) (linkConfig ebafActionDecrypt) .transparent .transparent :=
  ⟨rfl, rfl, rfl, rfl, rfl, rfl, rfl, rfl⟩

/-- The payload `ping` is sent twice, and the second datagram arrives first. -/
def pingActs : List (Channel.Act (Handover BpfCryptoParams) (PacketProgram → Env BpfCryptoParams)) :=
  let answers now := fun _ =>
    { Env.smooth (linkConfig ebafActionEncrypt).crypto (linkConfig ebafActionEncrypt).crypto.params with
      ivClock := now }
  [.send ⟨pingDatagram, answers 1⟩, .send ⟨pingDatagram, answers 2⟩, .deliver 1 (answers 3),
    .deliver 0 (answers 4)]

def pingLink : Channel.Ends (Option EbafCryptoStats) (Option EbafCryptoStats)
    (Handover BpfCryptoParams) Frame (PacketProgram → Env BpfCryptoParams) Frame :=
  hostLink (pingKernel _)
    ((ebafBpfStart .smooth (linkConfig ebafActionEncrypt)).exec (.initial (.nobody Unit))).kernel
    ((ebafBpfStart .smooth (linkConfig ebafActionDecrypt)).exec (.initial (.nobody Unit))).kernel

theorem transparent_link_of_ping :
    ∃ t w, Runs.run (Channel.step pingLink) (.init (some .zero) (some .zero)) pingActs = some t ∧
      Channel.Account ((transparentMode linkConfig_paired
        (pingKernel_inverts (c := (linkConfig ebafActionEncrypt).crypto.params))).terms .zero .zero)
          pingActs t w ∧
      (((Channel.wire pingLink (.init (some .zero) (some .zero)) pingActs).filter
        fun g => IsSealed 7777 g).map fun g => (tailHdr g).iv).Nodup := by
  have plain : IsPlain 7777 pingDatagram :=
    { toIsTransparent := pingDatagram_isTransparent
      nonempty := by decide
      small := by decide
      total := by decide }
  have asked : ∀ a ∈ Channel.requests pingActs,
      a.frame = pingDatagram ∧ HelpersOk (a.answers .transparent) := by
    intro a ha
    simp only [pingActs, Channel.requests, Channel.Act.request, List.filterMap_cons,
      List.filterMap_nil, List.mem_cons, List.not_mem_nil, or_false] at ha
    rcases ha with rfl | rfl
    · exact ⟨rfl, fun _ _ _ => rfl⟩
    · exact ⟨rfl, fun _ _ _ => rfl⟩
  have met : ∀ answers ∈ Channel.arrivals pingActs, HelpersOk (answers .transparent) := by
    intro answers hanswers
    simp only [pingActs, Channel.arrivals, Channel.Act.arrival, List.filterMap_cons,
      List.filterMap_nil, List.mem_cons, List.not_mem_nil, or_false] at hanswers
    rcases hanswers with rfl | rfl
    · exact fun _ _ _ => rfl
    · exact fun _ _ _ => rfl
  obtain ⟨⟨w, hw⟩, hivs⟩ := transparent_link (pingKernel _) (linkConfig ebafActionEncrypt)
    (linkConfig ebafActionDecrypt) linkConfig_paired .smooth .smooth (.nobody Unit) (.nobody Unit) rfl
    rfl rfl (linkConfig ebafActionEncrypt).crypto.params ⟨rfl, Or.inl ⟨rfl, rfl⟩, rfl, rfl⟩
    pingKernel_inverts .zero .zero pingActs (fun a ha => Or.inl ((asked a ha).1 ▸ plain))
    (fun a ha => (asked a ha).2) met _ rfl
  refine ⟨_, w, rfl, hw, (hivs rfl).mpr ?_⟩
  have hboth : ((Channel.requests pingActs).filter fun a =>
      IsPlain (linkConfig ebafActionEncrypt).crypto.udpPort a.frame) = Channel.requests pingActs :=
    List.filter_eq_self.mpr fun a ha => decide_eq_true ((asked a ha).1 ▸ plain)
  rw [hboth]
  decide

end Ebaf
