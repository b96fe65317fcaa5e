import Ebaf.CommandLine
import Ebaf.LeavingOthers
import Ebaf.MainLoop

/-! # `main`

From the argument vector to the end: `main` reads its arguments, sets up its signals and
starts the loader, or returns 1 with a message; otherwise it stays in its loop until a
signal or the end of its time, stops the loader and returns 0.
-/
namespace Ebaf
open CStrings EarlyExit Runs

variable {Other Ctx : Type} {cpus : Nat}

/-! ## Before the loop -/

/-- The answers to the calls of `main`. -/
structure MainEnv (Ctx : Type) where
  load : LoadEnv Ctx
  /-- The error of `signal`, if it fails. -/
  signalFails : Option Errno
  strerror : Int → CString

/-- `main` returns 1 with a message on standard error, or enters its loop. -/
inductive MainStart (Other Ctx : Type) where
  | failed (message : CString) (s : LoaderState Other Ctx)
  | started (cfg : EbafUserConfig) (s : LoaderState Other Ctx)

/-- `usage` -/
def usage (prog : CString) : CString :=
  printf (lit "usage: %s --iface IFACE --mode encrypt|decrypt --key HEXKEY [--algo cbc-aes|chacha20] " ++
      (lit "[--port PORT] [--stats-interval SEC] [--duration SEC] [--hook xdp|tc|both] " ++
        lit "[--tc-ingress|--tc-egress] [--transparent] [--events] [--jsonl]\n")) [prog]

/-- The message for an error of `ebaf_bpf_start`. -/
def startFailure (e : MainEnv Ctx) (cfg : EbafUserConfig) (err : Int) : CString :=
  if err = eexist.code then
    printf (lit "BPF start failed: XDP program already attached on %s\n") [cfg.iface]
  else printf (lit "BPF start failed: %s\n") [e.strerror (-err)]

/-- `main` up to its loop. -/
def startMain (e : MainEnv Ctx) (o : Others Other) (argv : List CString) : MainStart Other Ctx :=
  match ebafParseArgs argv with
  | none => .failed (usage (argv.headD [])) (.initial o)
  | some cfg =>
    match e.signalFails with
    | some n => .failed (printf (lit "signal setup failed: %s\n") [e.strerror n.1]) (.initial o)
    | none =>
      let s := (ebafBpfStart e.load cfg).exec (.initial o)
      if s.err = 0 then .started cfg s else .failed (startFailure e cfg s.err) s

section Starting
variable {e : MainEnv Ctx} {o : Others Other} {argv : List CString} {cfg : EbafUserConfig}
  {s : LoaderState Other Ctx} {message : CString}

/-- **Entering the loop.** -/
theorem startMain_started (h : startMain e o argv = .started cfg s) :
    cfg.WellFormed ∧ Running e.load cfg o s := by
  rw [startMain] at h
  split at h
  · cases h
  · rename_i cfg' hparse
    split at h
    · cases h
    · dsimp only at h
      split at h
      · rename_i herr
        obtain ⟨rfl, rfl⟩ := MainStart.started.inj h
        exact ⟨ebafParseArgs_wellFormed hparse, running_of_started herr⟩
      · cases h

/-- **Returning 1**: the interface is untouched, or as a failed start leaves it. -/
theorem startMain_failed (h : startMain e o argv = .failed message s) :
    s.kernel.interface = o.interface ∨ ∃ cfg, ebafParseArgs argv = some cfg ∧
      message = startFailure e cfg s.err ∧ StartFailed e.load cfg o s := by
  rw [startMain] at h
  split at h
  · obtain ⟨-, rfl⟩ := MainStart.failed.inj h
    exact Or.inl rfl
  · rename_i cfg hparse
    split at h
    · obtain ⟨-, rfl⟩ := MainStart.failed.inj h
      exact Or.inl rfl
    · dsimp only at h
      split at h
      · cases h
      · rename_i herr
        obtain ⟨rfl, rfl⟩ := MainStart.failed.inj h
        refine Or.inr ⟨cfg, hparse, rfl, ?_⟩
        let failed (s : LoaderState Other Ctx) : Prop := s.err ≠ 0 → StartFailed e.load cfg o s
        refine Prog.Ensures.exec (E := failed) ?_ herr
        exact (ebafBpfStart_spec e.load cfg o).mono (fun _ _ h hne => absurd h.1 hne)
          fun _ h _ => h

end Starting

/-! ## Events and counters -/

section Reporting
variable {K : CryptoKernel Ctx} {xs : List (Crossing Ctx)}

/-- As long as the ring buffer has room, there are as many events as transformed packets. -/
theorem Crossing.length_events (h : ∀ x ∈ xs, x.env.fails .ringbufReserve = false) :
    (Crossing.events K xs).length = xs.countP fun x => x.counted K := by
  induction xs with
  | nil => rfl
  | cons x xs ih =>
    have hrest := ih fun y hy => h y (List.mem_cons_of_mem _ hy)
    have hroom := h x List.mem_cons_self
    show ((x.result K).events ++ Crossing.events K xs).length = _
    rw [List.length_append, hrest]
    rcases Crossing.events_result K x with
      ⟨hcounted, call, ev, -, -, -, hevents⟩ | ⟨hcounted, hevents⟩
    · rw [hevents, submitted, hroom, List.countP_cons_of_pos hcounted, Nat.add_comm]
      rfl
    · rw [hevents, List.countP_cons_of_neg (by rw [hcounted]; exact Bool.false_ne_true),
        List.length_nil, Nat.zero_add]

/-- Every event reports a packet. -/
theorem Crossing.reports_of_mem {ev : EbafCryptoEvent} (h : ev ∈ Crossing.events K xs) :
    ∃ x ∈ xs, ev ∈ (x.result K).events ∧
      ∃ call, (x.result K).cipherCalls = [call] ∧ Reports K x.frame call ev ∧
        ((x.program = .transparent → SampleLoadsOk x.env) → FullSample call ev) := by
  obtain ⟨x, hx, hev⟩ := List.mem_flatMap.mp h
  refine ⟨x, hx, hev, ?_⟩
  rcases Crossing.events_result K x with
    ⟨-, call, ev', hcall, hreports, hfull, hevents⟩ | ⟨-, hevents⟩
  · rw [hevents, submitted] at hev
    split at hev
    · cases hev
    · obtain rfl := List.mem_singleton.mp hev
      exact ⟨call, hcall, hreports, hfull⟩
  · rw [hevents] at hev
    cases hev

end Reporting

/-! ## The loop of a run -/

/-- What goes on from step to step. -/
structure Watched (K : CryptoKernel Ctx) (cfg : EbafUserConfig) (c : Ctx) (startTime : Int)
    (acts : List (MainAct Ctx cpus)) (s : MainState Ctx cpus) : Prop where
  accounts : s.Accounts K
  /-- Statistics are printed at turns of the loop, and found as these say. -/
  turned : (printedTurns s.printed).Sublist (MainState.turns acts)
  clocked : s.Clocked cfg
  timed : s.Timed cfg startTime acts
  /-- At no turn the statistics are older than the interval. -/
  fresh : ∀ now found, acts.getLast? = some (.turn now found) →
    ∃ t, (printedTimes s.printed).getLast? = some t ∧ now - t < cfg.statsIntervalSec.toNat
  /-- The packets have met the programs that were asked for, with their key. -/
  keyed : ∀ x ∈ s.crossed, (x.program ∈ cfg.receivePrograms ∨ x.program ∈ cfg.sendPrograms) ∧
    ∃ answers : Env Ctx, x.env = answers.keyed cfg.crypto c

/-- **What `main` reports of a run.** -/
structure MainReport (K : CryptoKernel Ctx) (cfg : EbafUserConfig) (c : Ctx) (startTime : Int)
    (acts : List (MainAct Ctx cpus)) (s : MainState Ctx cpus) : Prop
    extends Watched K cfg c startTime acts s where
  /-- Every event printed reports a packet. -/
  reports : ∀ ev ∈ printedEvents s.printed, ∃ x ∈ s.crossed, ev ∈ (x.result K).events ∧
    ∃ call, (x.result K).cipherCalls = [call] ∧ Reports K x.frame call ev ∧
      ((x.program = .transparent → SampleLoadsOk x.env) → FullSample call ev)
  /-- The counters agree with the events. -/
  agree : (∀ x ∈ s.crossed, x.env.fails .ringbufReserve = false) →
    ∀ out ∈ s.printed, ∀ now total, out.item = .stats now true total →
      total .packetsCryptoOk =
        UInt64.ofNat (Crossing.events K (s.crossed.take out.crossings)).length

section Loop
variable {K : CryptoKernel Ctx} {e : LoadEnv Ctx} {o : Others Other} {cfg : EbafUserConfig} {c : Ctx}
  {k : LoaderKernel Other Ctx} {startTime : Int} {acts : List (MainAct Ctx cpus)}
  {s s' : MainState Ctx cpus} {a : MainAct Ctx cpus}

theorem Watched.step (hs : Watched K cfg c startTime acts s) (hpos : 1 ≤ cfg.statsIntervalSec)
    (hreceive : k.interface.receivePath = cfg.receivePrograms)
    (hsend : k.interface.sendPath = cfg.sendPrograms)
    (henv : ∀ p, (p ∈ cfg.receivePrograms ∨ p ∈ cfg.sendPrograms) → ∀ answers,
      k.env p answers = Env.keyed cfg.crypto c answers)
    (h : MainState.step K k cfg s a = some s') : Watched K cfg c startTime (acts ++ [a]) s' where
  accounts := hs.accounts.step h
  turned := MainState.printedTurns_step hs.turned h
  clocked := hs.clocked.step h
  timed := hs.timed.step h
  fresh := by
    intro now found hlast
    rw [List.getLast?_concat] at hlast
    obtain rfl := Option.some.inj hlast
    exact hs.clocked.turn_fresh hpos h
  keyed := by
    cases MainState.step_cases h with
    | packet cpu p answers f hpc hp =>
      intro x hx
      rcases List.mem_append.mp hx with hx | hx
      · exact hs.keyed x hx
      · obtain rfl := List.mem_singleton.mp hx
        rw [hreceive, hsend] at hp
        exact ⟨hp, answers, henv p hp answers⟩
    | signal hpc => exact hs.keyed
    | leave hpc hexit => exact hs.keyed
    | turn now found hpc hexit =>
      rw [MainState.turn]
      split <;> exact hs.keyed
    | poll n hpc hn => exact hs.keyed
    | deadline now hpc => exact hs.keyed

theorem watched_init (K : CryptoKernel Ctx) (cfg : EbafUserConfig) (c : Ctx) (startTime : Int) :
    Watched K cfg c startTime [] (.init startTime : MainState Ctx cpus) where
  accounts := MainState.accounts_init K startTime
  turned := List.Sublist.slnil
  clocked := ⟨List.isChain_nil, rfl⟩
  timed := ⟨rfl, ⟨fun h => (by cases h), fun h => (by cases h)⟩, fun h => (by cases h),
    fun _ now h => (by cases h)⟩
  fresh := fun now found h => (by cases h)
  keyed := List.forall_mem_nil _

/-- **Every run of the loop is watched.** -/
theorem watched_run {env : MainEnv Ctx} {argv : List CString} {s₀ : LoaderState Other Ctx}
    (h : startMain env o argv = .started cfg s₀) :
    ∃ c, Creates env.load.ctxEnv cfg.crypto c ∧
      ∀ (K : CryptoKernel Ctx) (cpus : Nat) (startTime : Int) (acts : List (MainAct Ctx cpus))
        (s : MainState Ctx cpus),
        run (MainState.step K s₀.kernel cfg) (.init startTime) acts = some s →
          Watched K cfg c startTime acts s := by
  obtain ⟨hformed, hrunning⟩ := startMain_started h
  obtain ⟨c, hcreates, henv⟩ := hrunning.env
  refine ⟨c, hcreates, fun K cpus startTime acts s hrun => ?_⟩
  exact run_history (J := fun acts s => Watched K cfg c startTime acts s)
    (fun _ _ _ _ hm hstep => Watched.step hm hformed.interval hrunning.receivePath
      hrunning.sendPath henv hstep) (watched_init K cfg c startTime) hrun

theorem Watched.report (hs : Watched K cfg c startTime acts s) :
    MainReport K cfg c startTime acts s := by
  refine ⟨hs, ?_, ?_⟩
  · intro ev hev
    refine Crossing.reports_of_mem ?_
    rw [← hs.accounts.events]
    exact List.mem_append_left _ hev
  · intro hroom out hout now total hitem
    have htells : Tells K (s.crossed.take out.crossings) total :=
      hs.accounts.said out hout now true total hitem
    rw [Crossing.length_events fun x hx => hroom x (List.mem_of_mem_take hx)]
    exact htells.2

end Loop

/-- **A run of `main`.**  If it returns 1, the interface is untouched or as a failed start
leaves it.  If it enters its loop, then in every run of the loop, with packets in any
order on any CPUs: every event of a packet is printed once and in order, after the packet
and before the events behind it; every statistics line says how many packets have been
seen and transformed, as many as there are events, or zeros at a turn that did not find the
map; the lines are an interval apart and at no turn older than that; the loop ends at a
signal or when the time is up, not earlier; and after the stop the interface is as a run
leaves it. -/
theorem main_reports (e : MainEnv Ctx) (o : Others Other) (argv : List CString) :
    (∀ message s, startMain e o argv = .failed message s →
      s.kernel.interface = o.interface ∨ ∃ cfg, ebafParseArgs argv = some cfg ∧
        message = startFailure e cfg s.err ∧ StartFailed e.load cfg o s) ∧
    ∀ cfg s₀, startMain e o argv = .started cfg s₀ →
      RunEnd e.load cfg o ((ebafBpfStop e.load).exec s₀).kernel.interface ∧
      ∃ c, Creates e.load.ctxEnv cfg.crypto c ∧
        ∀ (K : CryptoKernel Ctx) (cpus : Nat) (startTime : Int) (acts : List (MainAct Ctx cpus))
          (s : MainState Ctx cpus),
          run (MainState.step K s₀.kernel cfg) (.init startTime) acts = some s →
            MainReport K cfg c startTime acts s := by
  refine ⟨fun message s h => startMain_failed h, fun cfg s₀ h => ?_⟩
  obtain ⟨-, hrunning⟩ := startMain_started h
  obtain ⟨c, hcreates, hwatched⟩ := watched_run h
  refine ⟨?_, c, hcreates, fun K cpus startTime acts s hrun => ?_⟩
  · let ended (s : LoaderState Other Ctx) : Prop := RunEnd e.load cfg o s.kernel.interface
    exact Prog.Ensures.exec (E := ended) (hrunning.stop.mono (fun _ _ h => h.1) fun _ h => h)
  · exact (hwatched K cpus startTime acts s hrun).report

def jsonlConfig : EbafUserConfig :=
  { knownUserConfig ebafActionEncrypt .xdp with
    printEvents := true
    outputJsonl := true }

def jsonlArgv : List CString :=
  knownArgv (lit "encrypt") (lit "xdp") ++ [lit "--events", lit "--jsonl"]

/-- The datagram with the plain block crosses the XDP program. -/
def blockCrossing : Crossing BpfCryptoParams where
  program := .framed .xdp
  env := .smooth (knownConfig ebafActionEncrypt) (knownConfig ebafActionEncrypt).params
  frame := blockDatagram knownPlain
  entry := .zero

/-- Its event. -/
def crossingEvent : EbafCryptoEvent :=
  framedEvent blockCrossing.env (knownConfig ebafActionEncrypt) (blockDatagram knownPlain)
    (framedCrypt (knownKernel _) .encrypt (knownConfig ebafActionEncrypt).params
      (blockDatagram knownPlain))

theorem events_blockCrossing : (blockCrossing.result (knownKernel _)).events = [crossingEvent] := by
  have framed : IsFramed 7777 (blockDatagram knownPlain) :=
    datagram_isFramed (by decide) rfl (by decide)
  have aligned : framedBodyLen (blockDatagram knownPlain) % 16 = 0 := by
    rw [blockDatagram, framedBodyLen_datagram (by decide)]
    decide
  have handed : Handed blockCrossing.env (FramedProgram.xdp.Accepts blockCrossing.frame)
      FramedProgram.xdp.direction (knownConfig ebafActionEncrypt)
      (knownConfig ebafActionEncrypt).params .encrypt :=
    ⟨rfl, XdpAccepts.mk framed fun _ => aligned, ⟨rfl, by decide⟩, rfl⟩
  have hend := (FramedProgram.xdp.spec (knownKernel _) blockCrossing.env
    (entering blockCrossing.frame (some blockCrossing.entry))).transformed_of_handed handed rfl
  exact congrArg PacketState.events hend

/-- The packet crosses, the statistics are printed and the event is polled. -/
def blockActs : List (MainAct BpfCryptoParams 1) :=
  [.packet 0 (.framed .xdp) blockCrossing.env blockCrossing.frame, .turn 100 true, .poll 1]

/-- `main` in its loop. -/
def blockStart : LoaderState Unit BpfCryptoParams :=
  (ebafBpfStart .smooth jsonlConfig).exec (.initial (.nobody Unit))

theorem startMain_jsonl :
    startMain ⟨.smooth, none, fun _ => []⟩ (.nobody Unit) jsonlArgv = .started jsonlConfig blockStart := by
  have hparse : ebafParseArgs jsonlArgv = some jsonlConfig := by decide
  rw [startMain, hparse]
  rfl

def blockEnd : MainState BpfCryptoParams 1 :=
  (((MainState.init 100).cross (knownKernel _) 0 blockCrossing).turn jsonlConfig 100 true).pollEvents 1

theorem run_blockActs :
    run (MainState.step (knownKernel _) blockStart.kernel jsonlConfig) (.init 100) blockActs =
      some blockEnd := by
  let s₁ : MainState BpfCryptoParams 1 := (MainState.init 100).cross (knownKernel _) 0 blockCrossing
  have hcross : MainState.step (knownKernel _) blockStart.kernel jsonlConfig (.init 100)
      (.packet 0 (.framed .xdp) blockCrossing.env blockCrossing.frame) = some s₁ := rfl
  have hturn : MainState.step (knownKernel _) blockStart.kernel jsonlConfig s₁ (.turn 100 true) =
      some (s₁.turn jsonlConfig 100 true) := rfl
  have hpoll : MainState.step (knownKernel _) blockStart.kernel jsonlConfig
      (s₁.turn jsonlConfig 100 true) (.poll 1) = some blockEnd := by
    have hpc : (s₁.turn jsonlConfig 100 true).pc = .poll := rfl
    have hone : 1 ≤ (s₁.turn jsonlConfig 100 true).ring.length := by
      show 1 ≤ (blockCrossing.result (knownKernel _)).events.length
      rw [events_blockCrossing]
      exact Nat.le_refl 1
    rw [MainState.step, if_pos ⟨hpc, hone⟩]
    rfl
  rw [blockActs, run_cons hcross, run_cons hturn, run_cons hpoll]
  rfl

theorem ring_blockEnd : blockEnd.ring = [] := by
  show ((blockCrossing.result (knownKernel _)).events).drop 1 = []
  rw [events_blockCrossing]
  rfl

/-- The packet was transformed. -/
theorem counted_blockCrossing : blockCrossing.counted (knownKernel _) = true := by
  rcases Crossing.events_result (knownKernel _) blockCrossing with h | h
  · exact h.1
  · exact absurd (events_blockCrossing.symm.trans h.2) (List.cons_ne_nil _ _)

/-- The totals printed then. -/
def blockTotal : EbafCryptoStats :=
  StatsMap.ebafBpfPrintStats
    (Function.update (StatsMap.zero : StatsMap 1) 0 (blockCrossing.entryAfter (knownKernel _)))

theorem tells_blockTotal : Tells (knownKernel _) [blockCrossing] blockTotal :=
  ((MainState.accounts_init (knownKernel _) 100).cross rfl).totals

theorem printed_blockEnd :
    blockEnd.printed = [⟨.stats 100 true blockTotal, 1⟩, ⟨.event crossingEvent, 1⟩] := by
  show [_] ++ ((blockCrossing.result (knownKernel _)).events.take 1).map _ = _
  rw [events_blockCrossing]
  rfl

/-- Another turn, at which the map is not found, and a signal. -/
def twoTurns : List (MainAct BpfCryptoParams 1) :=
  blockActs ++ [.deadline 100, .turn 101 false, .poll 0, .signal, .deadline 101, .leave]

def twoTurnsEnd : MainState BpfCryptoParams 1 :=
  { ((blockEnd.endTurn jsonlConfig 100).turn jsonlConfig 101 false).pollEvents 0 with
    exiting := true
    pc := .stopped }

/-- The statistics and the event of the packet, and zeros for the map that was not found. -/
theorem main_reports_of_two_turns : ∃ s₀ c s total,
    startMain ⟨.smooth, none, fun _ => []⟩ (.nobody Unit) jsonlArgv = .started jsonlConfig s₀ ∧
    run (MainState.step (knownKernel _) s₀.kernel jsonlConfig) (.init 100) twoTurns = some s ∧
    s.printed = [⟨.stats 100 true total, 1⟩, ⟨.event crossingEvent, 1⟩, ⟨.stats 101 false .zero, 1⟩] ∧
    Tells (knownKernel _) [blockCrossing] total ∧
    MainReport (knownKernel _) jsonlConfig c 100 twoTurns s := by
  obtain ⟨-, c, -, hloop⟩ := (main_reports ⟨.smooth, none, fun _ => []⟩ (.nobody Unit) jsonlArgv).2
    _ _ startMain_jsonl
  have hrun : run (MainState.step (knownKernel _) blockStart.kernel jsonlConfig) (.init 100) twoTurns =
      some twoTurnsEnd := by
    rw [twoTurns, run_append run_blockActs]
    rfl
  refine ⟨_, c, _, _, startMain_jsonl, hrun, ?_, tells_blockTotal,
    hloop (knownKernel _) 1 100 twoTurns _ hrun⟩
  show blockEnd.printed ++ [_] ++ [] = _
  rw [printed_blockEnd]
  rfl

end Ebaf
