import Ebaf.Crossings
import Ebaf.EventFormat
import Ebaf.Runs
import Ebaf.StatisticsLine

/-! # The loop of `main`

While the attached programs work on packets, `main` prints the statistics, polls the
events and looks at the clock.  Packets, signals and the steps of the loop come in any
order.  Beside the state stands what nothing looks at: the packets that have crossed a
program, and for everything printed how many there were at that moment.
-/
namespace Ebaf
open CStrings EarlyExit Runs

variable {Other Ctx : Type} {cpus : Nat}

/-! ## The machine -/

/-- What is printed: the totals, at a time, of a map that was found or not, or an event. -/
inductive Printed where
  | stats (now : Int) (found : Bool) (total : EbafCryptoStats)
  | event (ev : EbafCryptoEvent)

/-- The text on standard output. -/
def Printed.text (cfg : EbafUserConfig) : Printed → CString
  | .stats _ _ total => statsLine total
  | .event ev => handleCryptoEvent (some ⟨cfg.outputJsonl⟩) ev EbafCryptoEvent.size

/-- What was printed, and the number of packets before it. -/
structure Output where
  item : Printed
  crossings : Nat

/-- Where `main` is in its loop. -/
inductive MainPc where
  | test
  | poll
  | deadline
  | stopped
  deriving DecidableEq

/-- The statistics map and the ring buffer, and the locals of `main`. -/
structure MainState (Ctx : Type) (cpus : Nat) where
  stats : StatsMap cpus
  ring : List EbafCryptoEvent
  exiting : Bool
  startTime : Int
  lastStatsTime : Int
  pc : MainPc
  crossed : List (Crossing Ctx)
  printed : List Output

/-- The steps: a packet meets a program, a signal arrives, and the turns of the loop.  The
clock is read at the start of a turn, where the statistics may not be `found`, and at
its end; a poll hands out the first `n` events. -/
inductive MainAct (Ctx : Type) (cpus : Nat) where
  | packet (cpu : Fin cpus) (p : PacketProgram) (answers : Env Ctx) (f : Frame)
  | signal
  | leave
  | turn (now : Int) (found : Bool)
  | poll (n : Nat)
  | deadline (now : Int)

namespace MainState

def init (startTime : Int) : MainState Ctx cpus where
  stats := .zero
  ring := []
  exiting := false
  startTime := startTime
  lastStatsTime := 0
  pc := .test
  crossed := []
  printed := []

/-- A program works on a packet. -/
def cross (K : CryptoKernel Ctx) (s : MainState Ctx cpus) (cpu : Fin cpus) (x : Crossing Ctx) :
    MainState Ctx cpus :=
  { s with
    stats := Function.update s.stats cpu (x.entryAfter K)
    ring := s.ring ++ (x.result K).events
    crossed := s.crossed ++ [x] }

/-- The statistics are due. -/
def StatsDue (cfg : EbafUserConfig) (s : MainState Ctx cpus) (now : Int) : Prop :=
  s.lastStatsTime = 0 ∨ (cfg.statsIntervalSec.toNat : Int) ≤ now - s.lastStatsTime

instance (cfg : EbafUserConfig) (s : MainState Ctx cpus) (now : Int) : Decidable (s.StatsDue cfg now) :=
  inferInstanceAs (Decidable (_ ∨ _))

/-- Where the loop goes on after the statistics. -/
def afterStats (cfg : EbafUserConfig) : MainPc := if cfg.printEvents then .poll else .deadline

/-- `ebaf_bpf_print_stats`; zeros are printed if the map cannot be read. -/
def printStats (s : MainState Ctx cpus) (now : Int) (found : Bool) : MainState Ctx cpus :=
  { s with
    lastStatsTime := now
    printed := s.printed ++
      [⟨.stats now found (if found then s.stats.ebafBpfPrintStats else .zero), s.crossed.length⟩] }

/-- The first half of a turn. -/
def turn (cfg : EbafUserConfig) (s : MainState Ctx cpus) (now : Int) (found : Bool) :
    MainState Ctx cpus :=
  if s.StatsDue cfg now then { s.printStats now found with pc := afterStats cfg }
  else { s with pc := afterStats cfg }

/-- `ebaf_bpf_poll_events` -/
def pollEvents (s : MainState Ctx cpus) (n : Nat) : MainState Ctx cpus :=
  { s with
    ring := s.ring.drop n
    pc := .deadline
    printed := s.printed ++ (s.ring.take n).map fun ev => ⟨.event ev, s.crossed.length⟩ }

/-- The time is up. -/
def Over (cfg : EbafUserConfig) (s : MainState Ctx cpus) (now : Int) : Prop :=
  0 < cfg.durationSec ∧ (cfg.durationSec.toNat : Int) ≤ now - s.startTime

instance (cfg : EbafUserConfig) (s : MainState Ctx cpus) (now : Int) : Decidable (s.Over cfg now) :=
  inferInstanceAs (Decidable (_ ∧ _))

/-- The end of a turn. -/
def endTurn (cfg : EbafUserConfig) (s : MainState Ctx cpus) (now : Int) : MainState Ctx cpus :=
  { s with pc := if s.Over cfg now then .stopped else .test }

/-- A step, where it can be taken.  Packets meet the attached programs until `main` has
left the loop. -/
def step (K : CryptoKernel Ctx) (k : LoaderKernel Other Ctx) (cfg : EbafUserConfig)
    (s : MainState Ctx cpus) : MainAct Ctx cpus → Option (MainState Ctx cpus)
  | .packet cpu p answers f =>
    if s.pc ≠ .stopped ∧ (p ∈ k.interface.receivePath ∨ p ∈ k.interface.sendPath) then
      some (s.cross K cpu ⟨p, k.env p answers, f, s.stats cpu⟩)
    else none
  | .signal => if s.pc ≠ .stopped then some { s with exiting := true } else none
  | .leave => if s.pc = .test ∧ s.exiting = true then some { s with pc := .stopped } else none
  | .turn now found =>
    if s.pc = .test ∧ s.exiting = false then some (s.turn cfg now found) else none
  | .poll n => if s.pc = .poll ∧ n ≤ s.ring.length then some (s.pollEvents n) else none
  | .deadline now => if s.pc = .deadline then some (s.endTurn cfg now) else none

/-- What a step can do. -/
inductive Step (K : CryptoKernel Ctx) (k : LoaderKernel Other Ctx) (cfg : EbafUserConfig)
    (s : MainState Ctx cpus) : MainAct Ctx cpus → MainState Ctx cpus → Prop where
  | packet (cpu : Fin cpus) (p : PacketProgram) (answers : Env Ctx) (f : Frame)
    (hpc : s.pc ≠ .stopped) (hp : p ∈ k.interface.receivePath ∨ p ∈ k.interface.sendPath) :
    Step K k cfg s (.packet cpu p answers f) (s.cross K cpu ⟨p, k.env p answers, f, s.stats cpu⟩)
  | signal (hpc : s.pc ≠ .stopped) : Step K k cfg s .signal { s with exiting := true }
  | leave (hpc : s.pc = .test) (hexit : s.exiting = true) :
    Step K k cfg s .leave { s with pc := .stopped }
  | turn (now : Int) (found : Bool) (hpc : s.pc = .test) (hexit : s.exiting = false) :
    Step K k cfg s (.turn now found) (s.turn cfg now found)
  | poll (n : Nat) (hpc : s.pc = .poll) (hn : n ≤ s.ring.length) :
    Step K k cfg s (.poll n) (s.pollEvents n)
  | deadline (now : Int) (hpc : s.pc = .deadline) :
    Step K k cfg s (.deadline now) (s.endTurn cfg now)

variable {K : CryptoKernel Ctx} {k : LoaderKernel Other Ctx} {cfg : EbafUserConfig}
  {s s' : MainState Ctx cpus} {a : MainAct Ctx cpus} {acts : List (MainAct Ctx cpus)}

/-- **Every step is one of these.** -/
theorem step_cases (h : step K k cfg s a = some s') : Step K k cfg s a s' := by
  cases a with
  | packet cpu p answers f =>
    obtain ⟨⟨hpc, hp⟩, h⟩ := Option.ite_none_right_eq_some.mp h
    obtain rfl := Option.some.inj h
    exact .packet cpu p answers f hpc hp
  | signal =>
    obtain ⟨hpc, h⟩ := Option.ite_none_right_eq_some.mp h
    obtain rfl := Option.some.inj h
    exact .signal hpc
  | leave =>
    obtain ⟨⟨hpc, hexit⟩, h⟩ := Option.ite_none_right_eq_some.mp h
    obtain rfl := Option.some.inj h
    exact .leave hpc hexit
  | turn now found =>
    obtain ⟨⟨hpc, hexit⟩, h⟩ := Option.ite_none_right_eq_some.mp h
    obtain rfl := Option.some.inj h
    exact .turn now found hpc hexit
  | poll n =>
    obtain ⟨⟨hpc, hn⟩, h⟩ := Option.ite_none_right_eq_some.mp h
    obtain rfl := Option.some.inj h
    exact .poll n hpc hn
  | deadline now =>
    obtain ⟨hpc, h⟩ := Option.ite_none_right_eq_some.mp h
    obtain rfl := Option.some.inj h
    exact .deadline now hpc

end MainState

/-! ## What was printed -/

/-- The events printed. -/
def printedEvents (outs : List Output) : List EbafCryptoEvent :=
  outs.filterMap fun out =>
    match out.item with
    | .event ev => some ev
    | .stats _ _ _ => none

/-- When statistics were printed, and whether their map was found. -/
def printedTurns (outs : List Output) : List (Int × Bool) :=
  outs.filterMap fun out =>
    match out.item with
    | .event _ => none
    | .stats now found _ => some (now, found)

/-- The times of the statistics printed. -/
def printedTimes (outs : List Output) : List Int := (printedTurns outs).map Prod.fst

theorem printedEvents_append (outs outs' : List Output) :
    printedEvents (outs ++ outs') = printedEvents outs ++ printedEvents outs' :=
  List.filterMap_append

theorem printedTurns_append (outs outs' : List Output) :
    printedTurns (outs ++ outs') = printedTurns outs ++ printedTurns outs' :=
  List.filterMap_append

theorem printedTimes_append (outs outs' : List Output) :
    printedTimes (outs ++ outs') = printedTimes outs ++ printedTimes outs' := by
  rw [printedTimes, printedTurns_append, List.map_append]
  rfl

theorem printedEvents_events (evs : List EbafCryptoEvent) (n : Nat) :
    printedEvents (evs.map fun ev => ⟨.event ev, n⟩) = evs := by
  induction evs with
  | nil => rfl
  | cons ev evs ih => exact congrArg (ev :: ·) ih

theorem printedTurns_events (evs : List EbafCryptoEvent) (n : Nat) :
    printedTurns (evs.map fun ev => ⟨.event ev, n⟩) = [] := by
  induction evs with
  | nil => rfl
  | cons ev evs ih => exact ih

/-- The totals say how many packets there were, and how many of them were transformed. -/
def Tells (K : CryptoKernel Ctx) (xs : List (Crossing Ctx)) (total : EbafCryptoStats) : Prop :=
  total .packetsSeen = UInt64.ofNat xs.length ∧
    total .packetsCryptoOk = UInt64.ofNat (xs.countP fun x => x.counted K)

/-- What a statistics line says: that of the packets, or zeros if the map was not found. -/
def Says (K : CryptoKernel Ctx) (xs : List (Crossing Ctx)) (found : Bool) (total : EbafCryptoStats) :
    Prop :=
  if found then Tells K xs total else total = .zero

/-- **What is printed, and what has happened.**  Events are printed once and in order, and
none is printed before its packet has crossed; totals are those of the packets before
them, and zeros exactly where the map was not found. -/
structure MainState.Accounts (K : CryptoKernel Ctx) (s : MainState Ctx cpus) : Prop where
  events : printedEvents s.printed ++ s.ring = Crossing.events K s.crossed
  totals : Tells K s.crossed s.stats.ebafBpfPrintStats
  order : (s.printed.map Output.crossings).Pairwise (· ≤ ·)
  within : ∀ out ∈ s.printed, out.crossings ≤ s.crossed.length
  early : ∀ i out, s.printed[i]? = some out →
    printedEvents (s.printed.take (i + 1)) <+: Crossing.events K (s.crossed.take out.crossings)
  said : ∀ out ∈ s.printed, ∀ now found total, out.item = .stats now found total →
    Says K (s.crossed.take out.crossings) found total

namespace MainState
variable {K : CryptoKernel Ctx} {k : LoaderKernel Other Ctx} {cfg : EbafUserConfig}
  {s s' : MainState Ctx cpus} {a : MainAct Ctx cpus} {acts : List (MainAct Ctx cpus)}

theorem accounts_init (K : CryptoKernel Ctx) (startTime : Int) :
    (init startTime : MainState Ctx cpus).Accounts K where
  events := rfl
  totals := by
    have hzero : ∀ c, (StatsMap.zero : StatsMap cpus).ebafBpfPrintStats c = 0 := by
      intro c
      rw [print_eq_sum]
      exact Finset.sum_const_zero
    exact ⟨hzero _, hzero _⟩
  order := List.Pairwise.nil
  within := List.forall_mem_nil _
  early := fun i out h => by cases h
  said := List.forall_mem_nil _

/-- A packet crosses. -/
theorem Accounts.cross (hs : s.Accounts K) {cpu : Fin cpus} {x : Crossing Ctx}
    (hentry : x.entry = s.stats cpu) : (s.cross K cpu x).Accounts K := by
  have hsteps := (Crossing.stats_result K x).2
  have hkept : ∀ out ∈ s.printed, (s.crossed ++ [x]).take out.crossings = s.crossed.take out.crossings :=
    fun out hout => List.take_append_of_le_length (hs.within out hout)
  constructor
  · show printedEvents s.printed ++ (s.ring ++ (x.result K).events) = Crossing.events K (s.crossed ++ [x])
    rw [← List.append_assoc, hs.events, Crossing.events_concat]
  · -- only the entry of this CPU changes, and so does the sum
    obtain ⟨hseen, hok⟩ := hs.totals
    constructor
    · show StatsMap.ebafBpfPrintStats (Function.update s.stats cpu (x.entryAfter K)) _ =
        UInt64.ofNat (s.crossed ++ [x]).length
      rw [print_update s.stats cpu (by rw [hsteps.seen, hentry]), hseen, List.length_append,
        List.length_singleton, UInt64.ofNat_add]
      rfl
    · show StatsMap.ebafBpfPrintStats (Function.update s.stats cpu (x.entryAfter K)) _ =
        UInt64.ofNat ((s.crossed ++ [x]).countP fun x => x.counted K)
      rw [print_update s.stats cpu (by rw [Crossing.ok_entryAfter, hentry]), hok, List.countP_append,
        List.countP_singleton, UInt64.ofNat_add]
  · exact hs.order
  · intro out hout
    exact (hs.within out hout).trans (by simp [MainState.cross])
  · intro i out hout
    show _ <+: Crossing.events K ((s.crossed ++ [x]).take out.crossings)
    rw [hkept out (List.mem_of_getElem? hout)]
    exact hs.early i out hout
  · intro out hout now found total hitem
    show Says K ((s.crossed ++ [x]).take out.crossings) found total
    rw [hkept out hout]
    exact hs.said out hout now found total hitem

/-- Something is printed: what is left in the ring buffer is left out, and totals are the
present ones. -/
theorem Accounts.print (hs : s.Accounts K) {t : MainState Ctx cpus} {outs : List Output}
    (hstats : t.stats = s.stats) (hcrossed : t.crossed = s.crossed)
    (hprinted : t.printed = s.printed ++ outs) (hring : printedEvents outs ++ t.ring = s.ring)
    (hnow : ∀ out ∈ outs, out.crossings = s.crossed.length)
    (htotals : ∀ out ∈ outs, ∀ now found total, out.item = .stats now found total →
      total = if found then s.stats.ebafBpfPrintStats else .zero) : t.Accounts K := by
  have hevents : printedEvents t.printed ++ t.ring = Crossing.events K t.crossed := by
    rw [hprinted, printedEvents_append, List.append_assoc, hring, hs.events, hcrossed]
  constructor
  · exact hevents
  · rw [hcrossed, hstats]
    exact hs.totals
  · rw [hprinted, List.map_append, List.pairwise_append]
    refine ⟨hs.order, List.pairwise_map.mpr ?_, ?_⟩
    · exact List.pairwise_of_forall_mem_list fun out hout out' hout' => by
        rw [hnow out hout, hnow out' hout']
    · intro n hn m hm
      obtain ⟨out, hout, rfl⟩ := List.mem_map.mp hn
      obtain ⟨out', hout', rfl⟩ := List.mem_map.mp hm
      rw [hnow out' hout']
      exact hs.within out hout
  · intro out hout
    rw [hprinted] at hout
    rw [hcrossed]
    rcases List.mem_append.mp hout with hout | hout
    · exact hs.within out hout
    · exact Nat.le_of_eq (hnow out hout)
  · intro i out hout
    rw [hcrossed]
    by_cases hi : i < s.printed.length
    · rw [hprinted, List.getElem?_append_left hi] at hout
      rw [hprinted, List.take_append_of_le_length hi]
      exact hs.early i out hout
    · -- printed with the others, of packets that have all crossed
      have hmem : out ∈ outs := by
        rw [hprinted, List.getElem?_append_right (Nat.not_lt.mp hi)] at hout
        exact List.mem_of_getElem? hout
      rw [hnow out hmem, List.take_length, ← hcrossed, ← hevents]
      exact ((List.take_prefix _ _).filterMap _).trans (List.prefix_append _ _)
  · intro out hout now found total hitem
    rw [hprinted] at hout
    rw [hcrossed]
    rcases List.mem_append.mp hout with hout | hout
    · exact hs.said out hout now found total hitem
    · rw [hnow out hout, List.take_length, htotals out hout now found total hitem]
      cases found with
      | true => exact hs.totals
      | false => rfl

/-- A step that prints nothing. -/
theorem Accounts.quiet (hs : s.Accounts K) {t : MainState Ctx cpus} (hstats : t.stats = s.stats)
    (hcrossed : t.crossed = s.crossed) (hprinted : t.printed = s.printed) (hring : t.ring = s.ring) :
    t.Accounts K :=
  hs.print hstats hcrossed (hprinted.trans (List.append_nil _).symm) hring (List.forall_mem_nil _)
    (List.forall_mem_nil _)

theorem Accounts.step (hs : s.Accounts K) (h : step K k cfg s a = some s') : s'.Accounts K := by
  cases step_cases h with
  | packet cpu p answers f hpc hp => exact hs.cross rfl
  | signal hpc => exact hs.quiet rfl rfl rfl rfl
  | leave hpc hexit => exact hs.quiet rfl rfl rfl rfl
  | turn now found hpc hexit =>
    rw [MainState.turn]
    split
    · -- statistics are no event, so the ring buffer is the same
      refine hs.print rfl rfl rfl rfl (List.forall_mem_singleton.mpr rfl)
        (List.forall_mem_singleton.mpr ?_)
      intro now' found' total hitem
      obtain ⟨-, rfl, rfl⟩ := Printed.stats.inj hitem
      rfl
    · exact hs.quiet rfl rfl rfl rfl
  | poll n hpc hn =>
    -- what is printed and what is left make up the ring buffer
    refine hs.print rfl rfl rfl ?_ ?_ ?_
    · rw [printedEvents_events]
      exact List.take_append_drop n s.ring
    · intro out hout
      obtain ⟨ev, -, rfl⟩ := List.mem_map.mp hout
      rfl
    · intro out hout now found total hitem
      obtain ⟨ev, -, rfl⟩ := List.mem_map.mp hout
      cases hitem
  | deadline now hpc => exact hs.quiet rfl rfl rfl rfl

end MainState

/-! ## The clock -/

/-- The time of a statistics line that was printed before another one. -/
def Spaced (cfg : EbafUserConfig) (before after : Int) : Prop :=
  before = 0 ∨ (cfg.statsIntervalSec.toNat : Int) ≤ after - before

/-- Statistics are an interval apart, and the last ones are those `main` remembers. -/
structure MainState.Clocked (cfg : EbafUserConfig) (s : MainState Ctx cpus) : Prop where
  spaced : (printedTimes s.printed).IsChain (Spaced cfg)
  last : (printedTimes s.printed).getLast?.getD 0 = s.lastStatsTime

namespace MainState
variable {K : CryptoKernel Ctx} {k : LoaderKernel Other Ctx} {cfg : EbafUserConfig}
  {s s' : MainState Ctx cpus} {a : MainAct Ctx cpus} {acts : List (MainAct Ctx cpus)}

theorem Clocked.printStats (hs : s.Clocked cfg) {now : Int} {found : Bool} {pc : MainPc}
    (hdue : s.StatsDue cfg now) : Clocked cfg { s.printStats now found with pc := pc } := by
  have htimes : printedTimes (s.printStats now found).printed = printedTimes s.printed ++ [now] :=
    printedTimes_append _ _
  constructor
  · show (printedTimes (s.printStats now found).printed).IsChain _
    rw [htimes, List.isChain_append]
    refine ⟨hs.spaced, List.isChain_singleton _, ?_⟩
    intro before hbefore after hafter
    obtain rfl := Option.some.inj hafter
    have hlast := hs.last
    rw [Option.mem_def.mp hbefore, Option.getD_some] at hlast
    rw [hlast]
    exact hdue
  · show (printedTimes (s.printStats now found).printed).getLast?.getD 0 = now
    rw [htimes, List.getLast?_concat]
    rfl

theorem Clocked.step (hs : s.Clocked cfg) (h : MainState.step K k cfg s a = some s') : s'.Clocked cfg := by
  cases step_cases h with
  | packet cpu p answers f hpc hp => exact ⟨hs.spaced, hs.last⟩
  | signal hpc => exact ⟨hs.spaced, hs.last⟩
  | leave hpc hexit => exact ⟨hs.spaced, hs.last⟩
  | turn now found hpc hexit =>
    rw [MainState.turn]
    split
    · exact hs.printStats ‹_›
    · exact ⟨hs.spaced, hs.last⟩
  | poll n hpc hn =>
    have htimes : printedTimes (s.pollEvents n).printed = printedTimes s.printed := by
      rw [pollEvents, printedTimes_append, printedTimes, printedTimes, printedTurns_events]
      exact List.append_nil _
    exact ⟨by rw [htimes]; exact hs.spaced, by rw [htimes]; exact hs.last⟩
  | deadline now hpc => exact ⟨hs.spaced, hs.last⟩

/-- **At no turn the statistics are older than the interval.** -/
theorem Clocked.turn_fresh (hs : s.Clocked cfg) (hpos : 1 ≤ cfg.statsIntervalSec) {now : Int}
    {found : Bool} (h : MainState.step K k cfg s (.turn now found) = some s') :
    ∃ t, (printedTimes s'.printed).getLast? = some t ∧ now - t < cfg.statsIntervalSec.toNat := by
  have hinterval : 1 ≤ cfg.statsIntervalSec.toNat := UInt32.le_iff_toNat_le.mp hpos
  cases step_cases h with
  | turn _ _ hpc hexit =>
    by_cases hdue : s.StatsDue cfg now
    · refine ⟨now, ?_, by omega⟩
      rw [MainState.turn, if_pos hdue]
      show (printedTimes (s.printStats now found).printed).getLast? = some now
      rw [MainState.printStats, printedTimes_append]
      exact List.getLast?_concat
    · rw [MainState.turn, if_neg hdue]
      obtain ⟨hne, hyoung⟩ := not_or.mp hdue
      have hlast := hs.last
      cases htime : (printedTimes s.printed).getLast? with
      | none =>
        rw [htime] at hlast
        exact absurd hlast.symm hne
      | some t =>
        rw [htime, Option.getD_some] at hlast
        exact ⟨t, rfl, by rw [hlast]; exact not_le.mp hyoung⟩

/-- The turns of the loop. -/
def turns (acts : List (MainAct Ctx cpus)) : List (Int × Bool) :=
  acts.filterMap fun a =>
    match a with
    | .turn now found => some (now, found)
    | _ => none

/-- A step prints statistics at its own turn, if it prints any. -/
theorem printedTurns_step (hs : (printedTurns s.printed).Sublist (turns acts))
    (h : MainState.step K k cfg s a = some s') :
    (printedTurns s'.printed).Sublist (turns (acts ++ [a])) := by
  have hkept : (printedTurns s.printed).Sublist (turns (acts ++ [a])) := by
    rw [turns, List.filterMap_append]
    exact hs.trans (List.sublist_append_left _ _)
  cases step_cases h with
  | packet cpu p answers f hpc hp => exact hkept
  | signal hpc => exact hkept
  | leave hpc hexit => exact hkept
  | turn now found hpc hexit =>
    rw [MainState.turn]
    split
    · show (printedTurns (s.printStats now found).printed).Sublist _
      rw [printStats, printedTurns_append, turns, List.filterMap_append]
      exact hs.append (List.Sublist.refl _)
    · exact hkept
  | poll n hpc hn =>
    rw [pollEvents, printedTurns_append, printedTurns_events, List.append_nil]
    exact hkept
  | deadline now hpc => exact hkept

/-! ## The end of the loop -/

/-- What the actions say of where the loop is: it ends at a test that finds a signal, or
at a turn's end when the time is up, and no turn before ends when the time is up. -/
structure Timed (cfg : EbafUserConfig) (startTime : Int) (acts : List (MainAct Ctx cpus))
    (s : MainState Ctx cpus) : Prop where
  start : s.startTime = startTime
  signalled : s.exiting = true ↔ .signal ∈ acts
  ended : s.pc = .stopped →
    (acts.getLast? = some .leave ∧ .signal ∈ acts) ∨
      ∃ now, acts.getLast? = some (.deadline now) ∧ 0 < cfg.durationSec ∧
        (cfg.durationSec.toNat : Int) ≤ now - startTime
  going : s.pc ≠ .stopped → ∀ now, .deadline now ∈ acts → 0 < cfg.durationSec →
    now - startTime < cfg.durationSec.toNat

/-- A step within the loop that reads no deadline. -/
theorem Timed.on {startTime : Int} (hs : s.Timed cfg startTime acts) {t : MainState Ctx cpus}
    (hstart : t.startTime = s.startTime) (hexit : t.exiting = s.exiting) (hpc : s.pc ≠ .stopped)
    (hpc' : t.pc ≠ .stopped) (hsignal : a ≠ .signal) (hdeadline : ∀ now, a ≠ .deadline now) :
    t.Timed cfg startTime (acts ++ [a]) where
  start := hstart.trans hs.start
  signalled := by
    rw [hexit, hs.signalled, List.mem_append, List.mem_singleton]
    exact ⟨Or.inl, fun h => h.resolve_right hsignal.symm⟩
  ended := fun h => absurd h hpc'
  going := by
    intro _ now hnow
    rcases List.mem_append.mp hnow with hnow | hnow
    · exact hs.going hpc now hnow
    · exact absurd (List.mem_singleton.mp hnow).symm (hdeadline now)

theorem afterStats_ne (cfg : EbafUserConfig) : afterStats cfg ≠ .stopped := by
  rw [afterStats]
  split <;> exact MainPc.noConfusion

theorem Timed.step {startTime : Int} (hs : s.Timed cfg startTime acts)
    (h : step K k cfg s a = some s') : s'.Timed cfg startTime (acts ++ [a]) := by
  cases step_cases h with
  | packet cpu p answers f hpc hp =>
    exact hs.on rfl rfl hpc hpc nofun nofun
  | signal hpc =>
    -- the signal is noticed only at the next test
    refine ⟨hs.start, ?_, fun h => absurd h hpc, fun _ now hnow => ?_⟩
    · exact iff_of_true rfl (List.mem_append_right _ List.mem_cons_self)
    · rcases List.mem_append.mp hnow with hnow | hnow
      · exact hs.going hpc now hnow
      · cases List.mem_singleton.mp hnow
  | leave hpc hexit =>
    have hsignal : MainAct.signal ∈ acts := hs.signalled.mp hexit
    refine ⟨hs.start, ?_, fun _ => Or.inl ⟨List.getLast?_concat, List.mem_append_left _ hsignal⟩,
      fun h => absurd rfl h⟩
    exact iff_of_true hexit (List.mem_append_left _ hsignal)
  | turn now found hpc hexit =>
    have hgoing : s.pc ≠ .stopped := hpc.trans_ne MainPc.noConfusion
    rw [MainState.turn]
    split
    · exact hs.on rfl rfl hgoing (afterStats_ne cfg) nofun nofun
    · exact hs.on rfl rfl hgoing (afterStats_ne cfg) nofun nofun
  | poll n hpc hn =>
    have hgoing : s.pc ≠ .stopped := hpc.trans_ne MainPc.noConfusion
    exact hs.on rfl rfl hgoing MainPc.noConfusion nofun nofun
  | deadline now hpc =>
    have hgoing : s.pc ≠ .stopped := hpc.trans_ne MainPc.noConfusion
    refine ⟨hs.start, ?_, ?_, ?_⟩
    · show s.exiting = true ↔ _
      rw [hs.signalled, List.mem_append, List.mem_singleton]
      exact ⟨Or.inl, fun h => h.resolve_right nofun⟩
    · -- stopped here, and not by a signal: the time is up
      intro hstopped
      have hover : s.Over cfg now := by
        by_contra hover
        rw [endTurn, if_neg hover] at hstopped
        cases hstopped
      rw [Over, hs.start] at hover
      exact Or.inr ⟨now, List.getLast?_concat, hover⟩
    · intro hgoes now' hnow' hpos
      rcases List.mem_append.mp hnow' with hnow' | hnow'
      · exact hs.going hgoing now' hnow' hpos
      · -- this deadline was not the end, so it was not reached
        obtain rfl := MainAct.deadline.inj (List.mem_singleton.mp hnow')
        by_contra hlate
        have hover : s.Over cfg now' := by
          rw [Over, hs.start]
          exact ⟨hpos, not_lt.mp hlate⟩
        rw [endTurn, if_pos hover] at hgoes
        exact hgoes rfl

end MainState
end Ebaf
