import Ebaf.PacketStatistics
import Ebaf.TransparentEncrypt
import Ebaf.TransparentDecrypt
import Ebaf.TrailedPayload

/-! # The statistics of the transparent program

`tc_transparent` accounts for most packets in exactly one class, but for some in
two: when the cipher fails, it counts a failure under `packets_malformed`, too,
and when a packet that has been deciphered is not opened after all, it was
already counted as transformed.  `CountsOnce` is what keeps a packet from
either; runs of such packets keep the statistics balanced.
-/
namespace Ebaf
open EarlyExit

variable {Ctx : Type} {K : CryptoKernel Ctx} {e : Env Ctx} {config : EbafCryptoConfig}
  {s s' : PacketState Ctx} {st : EbafCryptoStats}

/-- A packet the program does not accept is refused. -/
theorem tcTransparent_refuses
    (h : ∀ config, e.config = some config → ¬ TransparentAccepts s.frame config) :
    s.Refused ((tcTransparent K e).exec s) := by
  refine Prog.Ensures.exec (E := s.Refused) (.bind ((transparentParse_spec e s).mono
    (fun _ _ h => h) fun _ h => h.2) ?_)
  rintro r s' ⟨-, -, hc, ha⟩
  exact absurd ha (h _ hc)

/-- The cipher does not fail, and a packet that is deciphered is opened. -/
structure CountsOnce (K : CryptoKernel Ctx) (e : Env Ctx) (f : Frame) : Prop where
  encrypt : ∀ config c, e.config = some config → config.action = ebafActionEncrypt →
    ReadyToSeal e config f c → e.fails .cipher = false
  decrypt : ∀ config c, e.config = some config → config.action = ebafActionDecrypt →
    ReadyToOpen e config f c → e.fails .cipher = false ∧ Trims K e c f ∧ Refields K e c f ∧
      e.fails .udpCheckStore = false

/-- A deciphered packet that is not opened lacks one of the three. -/
theorem NotOpened.not_all {c : Ctx} {f g : Frame} (h : NotOpened K e c f g) :
    ¬ (Trims K e c f ∧ Refields K e c f ∧ e.fails .udpCheckStore = false) := by
  rintro ⟨ht, hr, hcheck⟩
  cases h with
  | kept hn _ => exact hn ht
  | halfway _ hn _ => exact hn hr
  | unsummed _ _ hfail _ => simp [hcheck] at hfail

/-- How a packet is counted: in one class, or in two. -/
inductive Counted (K : CryptoKernel Ctx) (e : Env Ctx) (f : Frame) (st st' : EbafCryptoStats) :
    Prop where
  | once (h : CountsOnce K e f) (d : Disposition) (hst : st' = st.account d)
  | twice (h : ¬ CountsOnce K e f) (hst : st'.outcomes = st.outcomes + 2)

theorem outcomes_doublyFailed (st : EbafCryptoStats) :
    (doublyFailed st).outcomes = st.outcomes + 2 := by
  simp only [EbafCryptoStats.outcomes, doublyFailed, EbafCryptoStats.reason, EbafCryptoStats.inc,
    reduceCtorEq, ite_true, ite_false]
  grind

theorem encrypt_counted {f : Frame} (hconfig : e.config = some config)
    (henc : config.action = ebafActionEncrypt) (hst : s.stats = some st) (hf : s.frame = f)
    (h : EncryptEnd K e config s s') : ∃ st', s'.stats = some st' ∧ Counted K e f st st' := by
  subst hf
  -- nothing is asked of the packet unless it is ready for the cipher
  have once : (∀ c, ReadyToSeal e config s.frame c → e.fails .cipher = false) →
      CountsOnce K e s.frame := by
    refine fun h => ⟨fun config' c hc _ hr => ?_, fun config' c hc hdec => ?_⟩
    · obtain rfl := Option.some.inj (hconfig.symm.trans hc)
      exact h c hr
    · obtain rfl := Option.some.inj (hconfig.symm.trans hc)
      exact absurd (henc.symm.trans hdec) encrypt_ne_decrypt
  have accounted : ∀ d, s'.stats = (s.accounted d).stats → s'.stats = some (st.account d) := by
    intro d hd
    rw [hd, PacketState.accounted, hst]
    rfl
  cases h with
  | refused hn hs =>
    obtain ⟨d, -, rfl⟩ := hs
    exact ⟨_, accounted d rfl, .once (once fun c hr => absurd ⟨hr.accepted, hr.grows⟩ hn) d rfl⟩
  | stranded _ _ hn hs =>
    obtain ⟨d, -, hd⟩ := hs.stats
    exact ⟨_, accounted d hd, .once (once fun c hr => absurd hr (hn c)) d rfl⟩
  | cipherFailed c hr hcipher hs =>
    refine ⟨doublyFailed st, ?_, .twice (fun ho => ?_) (outcomes_doublyFailed st)⟩
    · rw [hs]
      exact congrArg (Option.map doublyFailed) hst
    · simp [ho.encrypt config c hconfig henc hr] at hcipher
  | ivLost c _ hcipher _ _ hstats _ _ =>
    exact ⟨_, accounted _ hstats, .once (once fun _ _ => hcipher) _ rfl⟩
  | sealed c _ hcipher _ hs =>
    exact ⟨_, accounted .cryptoOk (by rw [hs]), .once (once fun _ _ => hcipher) _ rfl⟩

theorem decrypt_counted {f : Frame} (hconfig : e.config = some config)
    (hdec : config.action = ebafActionDecrypt) (hst : s.stats = some st) (hf : s.frame = f)
    (h : DecryptEnd K e config s s') : ∃ st', s'.stats = some st' ∧ Counted K e f st st' := by
  subst hf
  have once : (∀ c, ReadyToOpen e config s.frame c → e.fails .cipher = false ∧
      Trims K e c s.frame ∧ Refields K e c s.frame ∧ e.fails .udpCheckStore = false) →
        CountsOnce K e s.frame := by
    refine fun h => ⟨fun config' c hc henc => ?_, fun config' c hc _ hr => ?_⟩
    · obtain rfl := Option.some.inj (hconfig.symm.trans hc)
      exact absurd (henc.symm.trans hdec) encrypt_ne_decrypt
    · obtain rfl := Option.some.inj (hconfig.symm.trans hc)
      exact h c hr
  have accounted : ∀ d, (s.accounted d).stats = some (st.account d) := by
    intro d
    rw [PacketState.accounted, hst]
    rfl
  cases h with
  | refused hn hs =>
    obtain ⟨d, -, rfl⟩ := hs
    exact ⟨_, accounted d, .once (once fun c hr => absurd hr (hn c)) d rfl⟩
  | cipherFailed c hr hcipher hs =>
    refine ⟨doublyFailed st, ?_, .twice (fun ho => ?_) (outcomes_doublyFailed st)⟩
    · rw [hs]
      exact congrArg (Option.map doublyFailed) hst
    · simp [(ho.decrypt config c hconfig hdec hr).1] at hcipher
  | undone c hr _ hframe hs =>
    obtain ⟨d, -, hd⟩ := hs.stats
    refine ⟨d.count (st.account .cryptoOk), ?_, .twice (fun ho => ?_) ?_⟩
    · rw [hd, show (deciphered K e config c s).stats = _ from accounted .cryptoOk]
      rfl
    · exact hframe.not_all (ho.decrypt config c hconfig hdec hr).2
    · rw [EbafCryptoStats.outcomes_count, EbafCryptoStats.outcomes_account]
      grind
  | opened c hr hcipher ht hfields hcheck hs =>
    refine ⟨_, ?_, .once (once fun c' hr' => ?_) .cryptoOk rfl⟩
    · rw [hs]
      exact accounted .cryptoOk
    · rw [hr.keyed.unique hr'.keyed]
      exact ⟨hcipher, ht, hfields, hcheck⟩

/-- **How `tc_transparent` counts a packet.** -/
theorem tcTransparent_counted (K : CryptoKernel Ctx) (e : Env Ctx) (f : Frame)
    (st : EbafCryptoStats) : Counted K e f st (countPacket (tcTransparent K e) f st) := by
  let s : PacketState Ctx := ⟨f, some st, [], []⟩
  have hread : ∀ st', ((tcTransparent K e).exec s).stats = some st' →
      countPacket (tcTransparent K e) f st = st' := by
    intro st' h
    rw [countPacket, h, Option.getD_some]
  by_cases ha : ∃ config, e.config = some config ∧ TransparentAccepts f config
  · obtain ⟨config, hconfig, ha⟩ := ha
    rcases ha.action with henc | hdec
    · obtain ⟨st', hst', hc⟩ := encrypt_counted (s := s) hconfig henc rfl rfl
        (tcTransparent_encrypt_spec (K := K) hconfig henc)
      rwa [hread st' hst']
    · obtain ⟨st', hst', hc⟩ := decrypt_counted (s := s) hconfig hdec rfl rfl
        (tcTransparent_decrypt_spec (K := K) hconfig hdec)
      rwa [hread st' hst']
  · have hn : ∀ config, e.config = some config → ¬ TransparentAccepts f config :=
      fun config hc h => ha ⟨config, hc, h⟩
    obtain ⟨d, -, hd⟩ := tcTransparent_refuses (K := K) (s := s) hn
    refine .once ⟨fun config c hc _ hr => absurd hr.accepted (hn config hc),
      fun config c hc _ hr => absurd hr.accepted (hn config hc)⟩ d (hread _ ?_)
    rw [hd]
    rfl

/-- A packet is accounted for in one class exactly when it counts once. -/
theorem tcTransparent_accounts_iff (K : CryptoKernel Ctx) (e : Env Ctx) (f : Frame)
    (st : EbafCryptoStats) :
    (∃ d, countPacket (tcTransparent K e) f st = st.account d) ↔ CountsOnce K e f := by
  cases tcTransparent_counted K e f st with
  | once h d hst => exact ⟨fun _ => h, fun _ => ⟨d, hst⟩⟩
  | twice h hst =>
    refine ⟨?_, fun h' => absurd h' h⟩
    rintro ⟨d, hd⟩
    rw [hd, EbafCryptoStats.outcomes_account] at hst
    have : (1 : UInt64) = 2 := by grind
    exact absurd this (by decide)

/-! ## Runs -/

variable {cpus : Nat}

/-- A packet `tc_transparent` processes. -/
def transparentArrival (K : CryptoKernel Ctx) (a : Fin cpus × Env Ctx × Frame) :
    Arrival Ctx cpus :=
  ⟨a.1, tcTransparent K a.2.1, a.2.2⟩

/-- **The statistics of the transparent program, over runs.**  In every run from
a zeroed map in which every packet counts once, each packet is accounted for in
exactly one class, and in every state reached, on every CPU and in the printed
totals, the counters account for every packet. -/
theorem transparent_statistics_balanced (K : CryptoKernel Ctx)
    (l : List (Fin cpus × Env Ctx × Frame)) (hl : ∀ a ∈ l, CountsOnce K a.2.1 a.2.2) :
    (∀ a ∈ l, ∀ st, ∃ d, countPacket (tcTransparent K a.2.1) a.2.2 st = st.account d) ∧
      ∀ reached, reached <+: l →
        ((StatsMap.zero : StatsMap cpus).run (reached.map (transparentArrival K))).AllBalanced ∧
        ((StatsMap.zero : StatsMap cpus).run
          (reached.map (transparentArrival K))).ebafBpfPrintStats.Balanced := by
  have once : ∀ a ∈ l, ∀ st, ∃ d, countPacket (tcTransparent K a.2.1) a.2.2 st = st.account d :=
    fun a ha st => (tcTransparent_accounts_iff K a.2.1 a.2.2 st).mpr (hl a ha)
  refine ⟨once, fun reached hreached => ?_⟩
  have balanced : ((StatsMap.zero : StatsMap cpus).run
      (reached.map (transparentArrival K))).AllBalanced := by
    refine StatsMap.zero_allBalanced.run _ fun b hb st hst => ?_
    obtain ⟨a, ha, rfl⟩ := List.mem_map.mp hb
    obtain ⟨d, hd⟩ := once a (hreached.subset ha) st
    show (countPacket (tcTransparent K a.2.1) a.2.2 st).Balanced
    rw [hd]
    exact hst.account d
  exact ⟨balanced, balanced.print⟩

/-- The payload `ping` is encrypted on one CPU, and an empty frame refused on
another. -/
theorem transparent_statistics_of_ping :
    let l : List (Fin 2 × Env (List UInt8) × Frame) :=
      [(0, knownSender, pingDatagram), (1, knownReceiver, [])]
    (∀ a ∈ l, ∀ st, ∃ d, countPacket (tcTransparent (pingKernel _) a.2.1) a.2.2 st = st.account d) ∧
      ∀ reached, reached <+: l →
        ((StatsMap.zero : StatsMap 2).run
          (reached.map (transparentArrival (pingKernel _)))).AllBalanced ∧
        ((StatsMap.zero : StatsMap 2).run
          (reached.map (transparentArrival (pingKernel _)))).ebafBpfPrintStats.Balanced := by
  intro l
  refine transparent_statistics_balanced (pingKernel _) l fun a ha => ?_
  have hl : a = (0, knownSender, pingDatagram) ∨ a = (1, knownReceiver, []) := by
    simpa only [l, List.mem_cons, List.not_mem_nil, or_false] using ha
  rcases hl with rfl | rfl
  · refine ⟨fun _ _ _ _ _ => rfl, fun config c hc hdec _ => ?_⟩
    obtain rfl := Option.some.inj hc
    cases hdec
  · refine ⟨fun _ _ _ _ _ => rfl, fun config c _ _ ready => ?_⟩
    have inside := ready.accepted.datagram.length_ge
    simp at inside

/-- Where the cipher fails, a packet ready for it is counted twice. -/
theorem EncryptEnd.stats_of_cipherFails {c : Ctx} (h : EncryptEnd K e config s s')
    (hr : ReadyToSeal e config s.frame c) (hcipher : e.fails .cipher = true) :
    s'.stats = s.stats.map doublyFailed := by
  cases h with
  | refused hn _ => exact absurd ⟨hr.accepted, hr.grows⟩ hn
  | stranded _ _ hn _ => exact absurd hr (hn c)
  | cipherFailed _ _ _ hs => rw [hs]
  | ivLost _ _ hok _ _ _ _ _ =>
    rw [hok] at hcipher
    cases hcipher
  | sealed _ _ hok _ _ =>
    rw [hok] at hcipher
    cases hcipher

/-- A sender whose cipher fails. -/
def failingSender : Env (List UInt8) :=
  { knownSender with fails := fun call => call = .cipher }

/-- It counts one packet as failed and as malformed, for no reason. -/
theorem transparent_statistics_unbalanced :
    ¬ (∃ d, countPacket (tcTransparent (pingKernel _) failingSender) pingDatagram .zero =
        EbafCryptoStats.zero.account d) ∧
      ¬ ((StatsMap.zero : StatsMap 1).run
        [transparentArrival (pingKernel _)
          (0, failingSender, pingDatagram)]).ebafBpfPrintStats.Balanced := by
  have ready : ReadyToSeal failingSender (knownConfig ebafActionEncrypt) pingDatagram knownKey :=
    ⟨⟨pingDatagram_isTransparent, rfl, Or.inl rfl⟩, ⟨by decide, by decide, rfl⟩,
      ⟨fun _ _ => rfl, rfl, by decide, rfl⟩, rfl, by decide⟩
  have counted : countPacket (tcTransparent (pingKernel _) failingSender) pingDatagram .zero =
      doublyFailed .zero := by
    have hstats := (tcTransparent_encrypt_spec (K := pingKernel _)
      (s := ⟨pingDatagram, some .zero, [], []⟩) (e := failingSender) rfl rfl).stats_of_cipherFails
        ready rfl
    rw [countPacket, hstats]
    rfl
  constructor
  · rintro ⟨d, hd⟩
    have twice := congrArg EbafCryptoStats.outcomes (counted.symm.trans hd)
    rw [outcomes_doublyFailed, EbafCryptoStats.outcomes_account] at twice
    exact absurd twice (by decide)
  · have total : ((StatsMap.zero : StatsMap 1).run
        [transparentArrival (pingKernel _) (0, failingSender, pingDatagram)]).ebafBpfPrintStats =
          EbafCryptoStats.zero.add (doublyFailed .zero) := by
      rw [StatsMap.ebafBpfPrintStats, List.ofFn_succ, List.ofFn_zero, List.foldl_cons,
        List.foldl_nil, StatsMap.run, List.foldl_cons, List.foldl_nil, StatsMap.step,
        transparentArrival, Function.update_self]
      exact congrArg _ counted
    intro balanced
    rw [total] at balanced
    exact absurd balanced.malformed (by decide)

end Ebaf
