import Mathlib.Tactic.NormNum
import Ebaf.StatisticsLine

/-! # The rates shown

Both processes print statistics lines, and `update_stats_from_line` compares each
with the last one of either process.  A rate is below zero exactly when a counter
of the line is behind the last one by at least the number of seconds in between.
-/
namespace Ebaf
open CStrings Runs

/-! ## Rounding -/

theorem tdiv_nonneg_iff {a d : Int} (hd : 0 < d) : 0 ≤ a.tdiv d ↔ -d < a := by
  by_cases hsign : 0 ≤ a
  · have hquot : 0 ≤ a.tdiv d := Int.tdiv_nonneg hsign (Int.le_of_lt hd)
    exact ⟨fun _ => by omega, fun _ => hquot⟩
  · have hquot : a.tdiv d = -(-a / d) := by
      rw [← Int.tdiv_eq_ediv_of_nonneg (by omega), Int.neg_tdiv, neg_neg]
    -- what is cut off is less than one
    have hsmall : -a / d < 1 ↔ -a < 1 * d := Int.ediv_lt_iff_lt_mul hd
    rw [hquot]
    constructor
    · intro h
      have hlt := hsmall.mp (by omega)
      omega
    · intro h
      have hlt := hsmall.mpr (by omega)
      omega

/-- **`int` of a fraction is below zero from -1 down.** -/
theorem pyInt_nonneg_iff (q : Rat) : 0 ≤ pyInt q ↔ -1 < q := by
  have hden : (0 : Rat) < q.den := by exact_mod_cast q.den_pos
  rw [pyInt, tdiv_nonneg_iff (by exact_mod_cast q.den_pos)]
  conv_rhs => rw [← Rat.num_div_den q]
  rw [lt_div_iff₀ hden, neg_one_mul]
  constructor
  · intro h
    exact_mod_cast h
  · intro h
    exact_mod_cast h

/-- A rate is not below zero exactly when the counter is behind by less than the
seconds. -/
theorem rate_nonneg_iff {count last : Int} {seconds : Rat} (h : 0 < seconds) :
    0 ≤ pyInt (((count - last : Int) : Rat) / seconds) ↔
      ((last - count : Int) : Rat) < seconds := by
  rw [pyInt_nonneg_iff, lt_div_iff₀ h, neg_one_mul, neg_lt, ← Int.cast_neg, neg_sub]

namespace DemoState

theorem elapsed_pos (demo : DemoState) (now : Rat) : 0 < demo.elapsed now :=
  lt_of_lt_of_le (by norm_num) (le_max_right _ _)

/-- The rates shown are not below zero. -/
def RatesShown (demo : DemoState) : Prop := 0 ≤ demo.pps ∧ 0 ≤ demo.cryptoOkRate

/-- A counter of a line is behind the last one by less than the seconds in between,
which count as a thousandth at least. -/
def CloseTo (demo : DemoState) (line : CString) (now : Rat) (key : CString) : Prop :=
  ((demo.lastStats.count key - (lineParts line).count key : Int) : Rat) <
    max (now - demo.lastStatsAt) (1 / 1000)

/-- A statistics line is not behind the last one by the seconds in between. -/
def InStep (demo : DemoState) (line : CString) (now : Rat) : Prop :=
  lineParts line (lit "seen") ≠ none →
    demo.CloseTo line now (lit "seen") ∧ demo.CloseTo line now (lit "crypto_ok")

instance (demo : DemoState) (line : CString) (now : Rat) (key : CString) :
    Decidable (demo.CloseTo line now key) :=
  inferInstanceAs (Decidable (_ < _))

instance (demo : DemoState) (line : CString) (now : Rat) : Decidable (demo.InStep line now) :=
  inferInstanceAs (Decidable (_ ≠ none → _ ∧ _))

theorem updateStats_of_none {demo : DemoState} {line : CString} {now : Rat}
    (h : lineParts line (lit "seen") = none) : demo.updateStats line now = demo :=
  if_pos h

/-- **The rates a line leaves.** -/
theorem ratesShown_updateStats {demo : DemoState} (hs : demo.RatesShown) (line : CString)
    (now : Rat) : (demo.updateStats line now).RatesShown ↔ demo.InStep line now := by
  by_cases hseen : lineParts line (lit "seen") = none
  · rw [updateStats_of_none hseen]
    exact ⟨fun _ hne => absurd hseen hne, fun _ => hs⟩
  · have hpps : (demo.updateStats line now).pps = demo.rate (lineParts line) now (lit "seen") := by
      simp only [updateStats, if_neg hseen]
    have hok : (demo.updateStats line now).cryptoOkRate =
        demo.rate (lineParts line) now (lit "crypto_ok") := by
      simp only [updateStats, if_neg hseen]
    rw [RatesShown, hpps, hok, rate, rate, rate_nonneg_iff (demo.elapsed_pos now),
      rate_nonneg_iff (demo.elapsed_pos now)]
    exact ⟨fun h _ => h, fun h => h hseen⟩

end DemoState

namespace Dashboard
variable {loads : CString → Option TcEvent} {s s' : Dashboard} {a : DashboardAct}
  {acts : List DashboardAct}

/-- The step takes no line that is behind the last one by the seconds in between. -/
def NotBehind (s : Dashboard) : DashboardAct → Prop
  | .rates r now => (s.pc r).OnNoted fun line => s.demo.InStep line now
  | _ => True

instance (s : Dashboard) : (a : DashboardAct) → Decidable (NotBehind s a)
  | .rates r _ => inferInstanceAs (Decidable ((s.pc r).OnNoted _))
  | .send _ _ => isTrue trivial
  | .start _ _ _ _ => isTrue trivial
  | .count _ => isTrue trivial
  | .insert _ => isTrue trivial

/-- **A step leaves rates that are not below zero exactly when it takes no line that is
behind.** -/
theorem ratesShown_step (s : Dashboard) (a : DashboardAct) (s' : Dashboard)
    (hs : s.demo.RatesShown) (h : step loads s a = some s') :
    s'.demo.RatesShown ↔ NotBehind s a := by
  have hsame : s'.demo.RatesShown → NotBehind s a → (s'.demo.RatesShown ↔ NotBehind s a) :=
    fun hrates hbehind => ⟨fun _ => hbehind, fun _ => hrates⟩
  cases step_cases h with
  | rates r line now hpc =>
    rw [NotBehind, hpc]
    exact DemoState.ratesShown_updateStats hs line now
  | send rand extras => exact hsame hs trivial
  | read r line time datagram event hpc hevent => exact hsame hs trivial
  | note r line time datagram hpc hevent => exact hsame hs trivial
  | count r record hpc => exact hsame hs trivial
  | insert r record hpc => exact hsame hs trivial

/-- **In a run no rate is ever below zero exactly when no line is taken that is behind
the last one by the seconds in between.** -/
theorem ratesShown_iff_notBehind (loads : CString → Option TcEvent) (started : Rat)
    (trafficSource : CString) (acts : List DashboardAct) (s : Dashboard)
    (hrun : run (step loads) (init started trafficSource) acts = some s) :
    Always (step loads) (fun s => 0 ≤ s.demo.pps ∧ 0 ≤ s.demo.cryptoOkRate)
        (init started trafficSource) acts ↔
      Along (step loads) NotBehind (init started trafficSource) acts :=
  always_iff_along ratesShown_step ⟨Int.le_refl 0, Int.le_refl 0⟩ hrun

/-! ## Two processes -/

/-- The lines a reader hands on. -/
def linesOf (r : Reader) (acts : List DashboardAct) : List CString :=
  acts.filterMap fun a =>
    match a with
    | .start r' line _ _ => if r' = r then some (r.handedOn line) else none
    | _ => none

/-- The times at which lines are taken. -/
def readTimes (acts : List DashboardAct) : List Rat :=
  acts.filterMap fun a =>
    match a with
    | .rates _ now => some now
    | _ => none

/-- The counters of each process never fall. -/
def Rising (acts : List DashboardAct) : Prop :=
  ∀ r, (linesOf r acts).Pairwise fun line later =>
    (lineParts line).count (lit "seen") ≤ (lineParts later).count (lit "seen") ∧
      (lineParts line).count (lit "crypto_ok") ≤ (lineParts later).count (lit "crypto_ok")

/-- The statistics of a process that has encrypted or decrypted every packet. -/
def allOk (packets : UInt64) : EbafCryptoStats
  | .packetsSeen | .packetsPassed | .packetsCryptoOk => packets
  | _ => 0

/-- Two reports, a second apart. -/
def reports (r r' : Reader) (packets packets' : UInt64) : List DashboardAct :=
  [.start r (statsLine (allOk packets)) [] 0, .rates r 1,
    .start r' (statsLine (allOk packets')) [] 0, .rates r' 2]

/-- One process that reports 100 packets and then 250. -/
theorem ratesShown_encrypt_only : ∃ s : Dashboard,
    run (step plainLoads) (init 0 []) (reports .encrypt .encrypt 100 250) = some s ∧
      Always (step plainLoads) (fun s => 0 ≤ s.demo.pps ∧ 0 ≤ s.demo.cryptoOkRate) (init 0 [])
        (reports .encrypt .encrypt 100 250) := by
  have hbehind : Along (step plainLoads) NotBehind (init 0 [])
      (reports .encrypt .encrypt 100 250) := by
    decide +kernel
  have hend : (run (step plainLoads) (init 0 []) (reports .encrypt .encrypt 100 250)).isSome := by
    decide +kernel
  obtain ⟨s, hrun⟩ := Option.isSome_iff_exists.mp hend
  exact ⟨s, hrun, (ratesShown_iff_notBehind plainLoads 0 [] _ s hrun).mpr hbehind⟩

/-- **A process that has seen fewer packets pulls the rates below zero**: the encrypting
one reports 100 packets, a second later the decrypting one reports 5. -/
theorem not_ratesShown : ¬ ∀ (loads : CString → Option TcEvent) (started : Rat)
    (trafficSource : CString) (acts : List DashboardAct) (s : Dashboard),
    run (step loads) (init started trafficSource) acts = some s → Rising acts →
    (started :: readTimes acts).Pairwise (· ≤ ·) →
    Always (step loads) (fun s => 0 ≤ s.demo.pps ∧ 0 ≤ s.demo.cryptoOkRate)
      (init started trafficSource) acts := by
  intro h
  have hend : (run (step plainLoads) (init 0 []) (reports .encrypt .decrypt 100 5)).any fun s =>
      s.demo.pps = -95 := by
    decide +kernel
  have hrising : Rising (reports .encrypt .decrypt 100 5) := by
    intro r
    cases r with
    | encrypt => exact List.pairwise_singleton ..
    | decrypt => exact List.pairwise_singleton ..
  have htimes : ((0 : Rat) :: readTimes (reports .encrypt .decrypt 100 5)).Pairwise (· ≤ ·) := by
    decide +kernel
  obtain ⟨s, hrun, hs⟩ := (Option.any_eq_true ..).mp hend
  have hpps := ((h plainLoads 0 [] _ s hrun hrising htimes).run_end hrun).1
  rw [of_decide_eq_true hs] at hpps
  exact absurd hpps (by decide)

/-! ## One process -/

/-- No counter of a statistics line is below the last one. -/
def Continues (s : Dashboard) (source r : Reader) (line : CString) : Prop :=
  lineParts line (lit "seen") ≠ none →
    r = source ∧ ∀ key, s.demo.lastStats.count key ≤ (lineParts line).count key

/-- Statistics come from one process, and no counter of a line is below the last one. -/
def OneProcess (loads : CString → Option TcEvent) (source : Reader) (s : Dashboard) :
    DashboardAct → Prop
  | .start r line _ _ =>
    lineEvent loads (r.handedOn line) = none → s.Continues source r (r.handedOn line)
  | _ => True

/-- The lines the readers have noted go on from the last one. -/
def GoesOn (source : Reader) (s : Dashboard) : Prop :=
  ∀ r, (s.pc r).OnNoted fun line => s.Continues source r line

/-- A reader that moves on to what it notes, if it notes anything. -/
theorem GoesOn.move {source : Reader} {t : Dashboard} {r : Reader} {p : Pc} (hs : s.GoesOn source)
    (hpc : t.pc = Function.update s.pc r p) (hlast : t.demo.lastStats = s.demo.lastStats)
    (hp : p.OnNoted fun line => s.Continues source r line) : t.GoesOn source := by
  intro r'
  simp only [Continues, hlast, hpc]
  by_cases hr : r' = r
  · rw [hr, Function.update_self]
    exact hp
  · rw [Function.update_of_ne hr]
    exact hs r'

theorem GoesOn.step {source : Reader} (hs : s.GoesOn source) (ha : OneProcess loads source s a)
    (h : step loads s a = some s') : s'.GoesOn source := by
  cases step_cases h with
  | send rand extras => exact hs
  | read r line time datagram event hpc => exact hs.move rfl rfl trivial
  | note r line time datagram hpc hevent => exact hs.move rfl rfl (ha hevent)
  | count r record hpc => exact hs.move rfl rfl trivial
  | insert r record hpc => exact hs.move rfl rfl trivial
  | rates r line now hpc =>
    by_cases hseen : lineParts line (lit "seen") = none
    · exact hs.move rfl (by rw [Dashboard.rates, DemoState.updateStats_of_none hseen]) trivial
    · -- the source has taken its line, and the other reader notes no statistics
      have hnext : (s.rates r line now).pc = Function.update s.pc r .idle := rfl
      have hline : (s.pc r).OnNoted fun line => s.Continues source r line := hs r
      rw [hpc] at hline
      intro r'
      rw [hnext]
      by_cases hr : r' = r
      · rw [hr, Function.update_self]
        trivial
      · rw [Function.update_of_ne hr]
        refine Pc.OnNoted.imp ?_ (hs r')
        intro line' hother hseen'
        exact absurd ((hother hseen').1.trans (hline hseen).1.symm) hr

/-- **Then no line is behind.** -/
theorem notBehind_of_oneProcess {source : Reader} {started : Rat} {trafficSource : CString}
    (h : Along (step loads) (OneProcess loads source) (init started trafficSource) acts)
    (hrun : run (step loads) (init started trafficSource) acts = some s) :
    Along (step loads) NotBehind (init started trafficSource) acts := by
  refine along_mono (I := GoesOn source) ?_ (fun _ => trivial) h hrun
  intro m a m' hm ha hstep
  refine ⟨?_, hm.step ha hstep⟩
  cases a with
  | rates r now =>
    refine Pc.OnNoted.imp ?_ (hm r)
    intro line hline hseen
    have hclose : ∀ key, m.demo.CloseTo line now key := by
      intro key
      have hle := (hline hseen).2 key
      have hdiff : ((m.demo.lastStats.count key - (lineParts line).count key : Int) : Rat) ≤ 0 := by
        exact_mod_cast Int.sub_nonpos_of_le hle
      exact lt_of_le_of_lt hdiff (m.demo.elapsed_pos now)
    exact ⟨hclose _, hclose _⟩
  | send rand extras => trivial
  | start r line time datagram => trivial
  | count r => trivial
  | insert r => trivial

end Dashboard
end Ebaf
