import Mathlib.Algebra.BigOperators.Fin
import Mathlib.Data.UInt
import Ebaf.EventReports
import Ebaf.HostLink
import Ebaf.PacketStatistics

/-! # The counters and the events of packets

Whatever a program makes of a packet, it counts it as seen once and as transformed at
most once, and the events it submits are those of the packets it counts as transformed.
So the printed totals tell how many packets there were, and how many events.
-/
namespace Ebaf
open EarlyExit

variable {Ctx : Type} {cpus : Nat}

/-! ## One packet -/

/-- A packet that crosses a program: what the program finds. -/
structure Crossing (Ctx : Type) where
  program : PacketProgram
  env : Env Ctx
  frame : Frame
  /-- The statistics entry of its CPU. -/
  entry : EbafCryptoStats

namespace Crossing

/-- What the program leaves. -/
def result (K : CryptoKernel Ctx) (x : Crossing Ctx) : PacketState Ctx :=
  (x.program.run K x.env).exec (entering x.frame (some x.entry))

def entryAfter (K : CryptoKernel Ctx) (x : Crossing Ctx) : EbafCryptoStats :=
  (x.result K).stats.getD x.entry

/-- The packet was counted as transformed. -/
def counted (K : CryptoKernel Ctx) (x : Crossing Ctx) : Bool :=
  x.entryAfter K .packetsCryptoOk = x.entry .packetsCryptoOk + 1

/-- The events of packets, one after the other. -/
def events (K : CryptoKernel Ctx) (xs : List (Crossing Ctx)) : List EbafCryptoEvent :=
  xs.flatMap fun x => (x.result K).events

theorem events_concat (K : CryptoKernel Ctx) (xs : List (Crossing Ctx)) (x : Crossing Ctx) :
    events K (xs ++ [x]) = events K xs ++ (x.result K).events := by
  rw [events, List.flatMap_append, List.flatMap_singleton]
  rfl

end Crossing

/-- A packet is seen once, and transformed once or not. -/
structure Steps (st st' : EbafCryptoStats) : Prop where
  seen : st' .packetsSeen = st .packetsSeen + 1
  ok : st' .packetsCryptoOk = st .packetsCryptoOk ∨ st' .packetsCryptoOk = st .packetsCryptoOk + 1

theorem steps_account (d : Disposition) (st : EbafCryptoStats) : Steps st (st.account d) := by
  refine ⟨account_seen d st, ?_⟩
  by_cases hd : d = .cryptoOk
  · exact Or.inr (by rw [hd, account_ok])
  · exact Or.inl (account_not_ok hd st)

/-- What is counted besides does not matter. -/
theorem Steps.count {st st' : EbafCryptoStats} (h : Steps st st') {d : Disposition}
    (hd : d ≠ .cryptoOk) : Steps st (d.count st') := by
  refine ⟨?_, by rw [Disposition.count_cryptoOk hd]; exact h.ok⟩
  rw [← h.seen]
  cases d with
  | passed | cryptoFail => rfl
  | cryptoOk => exact absurd rfl hd
  | malformed c hc =>
    have hne : Counter.packetsSeen ≠ c := by
      rintro rfl
      cases hc
    exact (EbafCryptoStats.inc_of_ne hne _).trans rfl

section Programs
variable {K : CryptoKernel Ctx} {e : Env Ctx} {config : EbafCryptoConfig} {s s' : PacketState Ctx}
  {st : EbafCryptoStats}

theorem EncryptEnd.steps (h : EncryptEnd K e config s s') (hst : s.stats = some st) :
    ∃ st', s'.stats = some st' ∧ Steps st st' := by
  have accounted : ∀ d, s'.stats = (s.accounted d).stats → ∃ st', s'.stats = some st' ∧ Steps st st' := by
    intro d hd
    refine ⟨st.account d, ?_, steps_account d st⟩
    rw [hd, PacketState.accounted, hst]
    rfl
  cases h with
  | refused _ hs =>
    obtain ⟨d, -, rfl⟩ := hs
    exact accounted d rfl
  | stranded _ _ _ hs =>
    obtain ⟨d, -, hd⟩ := hs.stats
    exact accounted d hd
  | cipherFailed _ _ _ hs =>
    subst hs
    exact ⟨doublyFailed st, congrArg (Option.map doublyFailed) hst, rfl, Or.inl rfl⟩
  | ivLost _ _ _ _ _ hstats => exact accounted _ hstats
  | sealed _ _ _ _ hs => exact accounted .cryptoOk (by rw [hs])

theorem DecryptEnd.steps (h : DecryptEnd K e config s s') (hst : s.stats = some st) :
    ∃ st', s'.stats = some st' ∧ Steps st st' := by
  have accounted : ∀ d, (s.accounted d).stats = some (st.account d) := by
    intro d
    rw [PacketState.accounted, hst]
    rfl
  cases h with
  | refused _ hs =>
    obtain ⟨d, -, rfl⟩ := hs
    exact ⟨_, accounted d, steps_account d st⟩
  | cipherFailed _ _ _ hs =>
    subst hs
    exact ⟨doublyFailed st, congrArg (Option.map doublyFailed) hst, rfl, Or.inl rfl⟩
  | undone c _ _ _ hs =>
    obtain ⟨d, hd, hstats⟩ := hs.stats
    refine ⟨d.count (st.account .cryptoOk), ?_, (steps_account .cryptoOk st).count hd⟩
    rw [hstats, show (deciphered K e config c s).stats = _ from accounted .cryptoOk]
    rfl
  | opened _ _ _ _ _ _ hs =>
    refine ⟨_, ?_, steps_account .cryptoOk st⟩
    rw [hs]
    exact accounted .cryptoOk

/-- **Every program sees its packet once.** -/
theorem PacketProgram.steps (p : PacketProgram) (K : CryptoKernel Ctx) (e : Env Ctx)
    (hst : s.stats = some st) : ∃ st', ((p.run K e).exec s).stats = some st' ∧ Steps st st' := by
  have accounted : ∀ d, (s.accounted d).stats = some (st.account d) := by
    intro d
    rw [PacketState.accounted, hst]
    rfl
  cases p with
  | framed p =>
    obtain ⟨d, hd⟩ := (p.spec K e s).accounted
    exact ⟨st.account d, hd.trans (accounted d), steps_account d st⟩
  | transparent =>
    show ∃ st', ((tcTransparent K e).exec s).stats = some st' ∧ Steps st st'
    by_cases ha : ∃ config, e.config = some config ∧ TransparentAccepts s.frame config
    · obtain ⟨config, hconfig, ha⟩ := ha
      rcases ha.action with henc | hdec
      · exact (tcTransparent_encrypt_spec (K := K) hconfig henc).steps hst
      · exact (tcTransparent_decrypt_spec (K := K) hconfig hdec).steps hst
    · obtain ⟨d, -, hd⟩ := tcTransparent_refuses (K := K) (s := s)
        fun config hc h => ha ⟨config, hc, h⟩
      exact ⟨st.account d, by rw [hd]; exact accounted d, steps_account d st⟩

end Programs

namespace Crossing
variable {K : CryptoKernel Ctx} {x : Crossing Ctx}

theorem stats_result (K : CryptoKernel Ctx) (x : Crossing Ctx) :
    (x.result K).stats = some (x.entryAfter K) ∧ Steps x.entry (x.entryAfter K) := by
  obtain ⟨st', hst', hsteps⟩ := x.program.steps K x.env (s := entering x.frame (some x.entry)) rfl
  have hresult : (x.result K).stats = some st' := hst'
  rw [entryAfter, hresult]
  exact ⟨rfl, hsteps⟩

/-- A packet that is not counted leaves the counter alone. -/
theorem ok_entryAfter (K : CryptoKernel Ctx) (x : Crossing Ctx) :
    x.entryAfter K .packetsCryptoOk =
      x.entry .packetsCryptoOk + UInt64.ofNat (if x.counted K then 1 else 0) := by
  by_cases h : x.counted K = true
  · rw [if_pos h]
    exact of_decide_eq_true h
  · rw [if_neg h]
    have hsame := (stats_result K x).2.ok.resolve_right fun hok => h (decide_eq_true hok)
    rw [hsame]
    exact (UInt64.add_zero _).symm

/-- **The event of a packet**: there is one exactly if the packet is counted as
transformed and the ring buffer has room, and it reports the one cipher call, with as much
of the body as a sample holds if it can be read. -/
theorem events_result (K : CryptoKernel Ctx) (x : Crossing Ctx) :
    (x.counted K = true ∧ ∃ call ev, (x.result K).cipherCalls = [call] ∧
        Reports K x.frame call ev ∧
        ((x.program = .transparent → SampleLoadsOk x.env) → FullSample call ev) ∧
        (x.result K).events = submitted x.env ev) ∨
      (x.counted K = false ∧ (x.result K).events = []) := by
  have hstats := (stats_result K x).1
  have hreported := x.program.reported K x.env (s := entering x.frame (some x.entry)) rfl
  have hcounted : CountedOk (entering x.frame (some x.entry) : PacketState Ctx) (x.result K) ↔
      x.counted K = true := by
    constructor
    · rintro ⟨st, st', hst, hst', hok⟩
      obtain rfl := Option.some.inj hst
      obtain rfl := Option.some.inj (hstats.symm.trans hst')
      exact decide_eq_true hok
    · intro h
      exact ⟨x.entry, x.entryAfter K, rfl, hstats, of_decide_eq_true h⟩
  cases hreported with
  | silent hn hev => exact Or.inr ⟨by simpa using fun h => hn (hcounted.mpr h), hev⟩
  | counted hc call ev hcall hev h hfull =>
    exact Or.inl ⟨hcounted.mp hc, call, ev, hcall, h, hfull, hev⟩

end Crossing

/-! ## The totals -/

/-- The printed totals are sums over the CPUs. -/
theorem print_eq_sum (m : StatsMap cpus) (c : Counter) :
    m.ebafBpfPrintStats c = ∑ cpu, m cpu c := by
  have hfold : ∀ (l : List EbafCryptoStats) (total : EbafCryptoStats),
      l.foldl EbafCryptoStats.add total c = total c + (l.map fun st => st c).sum := by
    intro l
    induction l with
    | nil => exact fun total => (UInt64.add_zero _).symm
    | cons st l ih =>
      intro total
      rw [List.foldl_cons, ih, List.map_cons, List.sum_cons, ← add_assoc]
      rfl
  rw [StatsMap.ebafBpfPrintStats, hfold, List.map_ofFn, List.sum_ofFn]
  exact UInt64.zero_add _

/-- What one entry gains, the totals gain. -/
theorem print_update (m : StatsMap cpus) (cpu : Fin cpus) {st : EbafCryptoStats} {c : Counter}
    {n : UInt64} (h : st c = m cpu c + n) :
    StatsMap.ebafBpfPrintStats (Function.update m cpu st) c = m.ebafBpfPrintStats c + n := by
  have hother : ∀ i ∈ Finset.univ.erase cpu, Function.update m cpu st i c = m i c := by
    intro i hi
    rw [Function.update_of_ne (Finset.ne_of_mem_erase hi)]
  rw [print_eq_sum, print_eq_sum, ← Finset.add_sum_erase _ _ (Finset.mem_univ cpu),
    ← Finset.add_sum_erase _ (fun i => m i c) (Finset.mem_univ cpu), Finset.sum_congr rfl hother,
    Function.update_self, h]
  exact add_right_comm _ _ _

end Ebaf
