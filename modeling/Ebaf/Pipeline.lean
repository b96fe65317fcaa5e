import Ebaf.EventView
import Ebaf.UserMain

/-! # From the programs to the page

What a process prints goes through a pipe to a reader thread of the dashboard.  The
reader gets the lines one after the other, and the packets it makes are those of the
events the programs have submitted, in their order: on the way through the ring buffer,
`printf`, the pipe and `json.loads` none is lost, doubled or overtaken.
-/
namespace Ebaf
open CStrings EarlyExit Runs JsonText

/-! ## Lines -/

/-- The lines of a text, with the start of the first one in front; a line that has not
ended is not handed out. -/
def readLines : CString → CString → List CString
  | _, [] => []
  | line, b :: s => if b = 10 then (line ++ [b]) :: readLines [] s else readLines (line ++ [b]) s

/-- No control characters, and nothing beyond ASCII. -/
def PlainText (s : CString) : Prop := ∀ b ∈ s, 32 ≤ b ∧ b < 127

instance (s : CString) : Decidable (PlainText s) := List.decidableBAll _ s

/-- Nothing but the end of the text ends a line. -/
def OneLine (text : CString) : Prop := ∃ body, text = body ++ [10] ∧ PlainText body

section Lines
variable {line body rest text : CString} {texts : List CString}

theorem readLines_line (h : PlainText body) :
    readLines line (body ++ 10 :: rest) = (line ++ (body ++ [10])) :: readLines [] rest := by
  induction body generalizing line with
  | nil => exact if_pos rfl
  | cons b body ih =>
    have hb : b ≠ 10 := by
      rintro rfl
      exact absurd (h 10 List.mem_cons_self).1 (by decide)
    rw [List.cons_append, readLines, if_neg hb, ih fun c hc => h c (List.mem_cons_of_mem _ hc)]
    simp only [List.append_assoc, List.cons_append, List.nil_append]

/-- **A pipe hands out the lines that were written.** -/
theorem readLines_flatten (h : ∀ text ∈ texts, OneLine text) : readLines [] texts.flatten = texts := by
  induction texts with
  | nil => rfl
  | cons text texts ih =>
    obtain ⟨body, rfl, hbody⟩ := h text List.mem_cons_self
    rw [List.flatten_cons, List.append_assoc, List.singleton_append, readLines_line hbody,
      ih fun t ht => h t (List.mem_cons_of_mem _ ht), List.nil_append]

end Lines

/-! ## Texts that are printed -/

section Printing
variable {cfg : EbafUserConfig} {outs : List Output} {s t : CString}

theorem PlainText.append (hs : PlainText s) (ht : PlainText t) : PlainText (s ++ t) :=
  List.forall_mem_append.mpr ⟨hs, ht⟩

/-- A word: no space, and no equals sign. -/
def PlainWord (s : CString) : Prop := ∀ b ∈ s, 32 < b ∧ b < 127 ∧ b ≠ 61

instance (s : CString) : Decidable (PlainWord s) := List.decidableBAll _ s

theorem PlainWord.plain (h : PlainWord s) : PlainText s :=
  fun b hb => ⟨UInt8.le_of_lt (h b hb).1, (h b hb).2.1⟩

theorem plainWord_decimal (n : Nat) : PlainWord (decimal n) := by
  intro b hb
  obtain ⟨hlo, hhi⟩ := isDigit_decimal n b hb
  refine ⟨UInt8.lt_of_lt_of_le (by decide) hlo, UInt8.lt_of_le_of_lt hhi (by decide), ?_⟩
  rintro rfl
  exact absurd hhi (by decide)

theorem plainWord_hexText (bytes : List UInt8) : PlainWord (hexText bytes) := by
  have hdigit : ∀ d < 16, 32 < hexDigit d ∧ hexDigit d < 127 ∧ hexDigit d ≠ 61 := by decide
  induction bytes with
  | nil => exact List.forall_mem_nil _
  | cons b bytes ih =>
    have hb := b.toNat_lt
    rw [hexText]
    refine List.forall_mem_cons.mpr ⟨hdigit _ ?_, List.forall_mem_cons.mpr ⟨hdigit _ ?_, ih⟩⟩
    · rw [toNat_high]
      omega
    · rw [toNat_low]
      omega

theorem plainWord_dottedQuad (addr : UInt32) : PlainWord (dottedQuad addr) := by
  rw [dottedQuad_eq]
  have htails : ∀ tail ∈ ([[46], [46], [46], []] : List CString), PlainWord tail := by decide
  refine forall_mem_fill htails fun arg harg => ?_
  obtain ⟨n, -, rfl⟩ := List.mem_map.mp harg
  exact plainWord_decimal n

theorem plainWord_actionName (action : UInt8) : PlainWord (actionName action) := by
  rw [actionName]
  split
  · decide
  split <;> decide

theorem plainWord_algoName (algo : UInt8) : PlainWord (algoName algo) := by
  rw [algoName]
  split
  · decide
  split <;> decide

/-- The arguments of both formats are words. -/
theorem plainWord_args (event : EbafCryptoEvent) : ∀ arg ∈ event.args, PlainWord arg := by
  simp only [EbafCryptoEvent.args, addressText_eq, List.forall_mem_cons]
  exact ⟨plainWord_decimal _, plainWord_actionName _, plainWord_algoName _, plainWord_dottedQuad _,
    plainWord_decimal _, plainWord_dottedQuad _, plainWord_decimal _, plainWord_decimal _,
    plainWord_decimal _, plainWord_hexText _, List.forall_mem_nil _⟩

/-- The texts behind the conversions of the format that is not JSON, and the sample. -/
def eventTextTails : List CString :=
  [lit " action=", lit " algo=", lit " ", lit ":", lit " -> ", lit ":", lit " payload=", lit " data=",
    lit " sample=", []]

/-- The sample is printed like one more argument. -/
theorem handleCryptoEvent_text (event : EbafCryptoEvent) :
    handleCryptoEvent (some ⟨false⟩) event EbafCryptoEvent.size =
      lit "event ts=" ++ (fill eventTextTails event.args ++ [10]) := by
  have hpieces : pieces false eventTextFormat = (lit "event ts=", eventTextTails.take 9) := by decide
  have hjsonl : ¬ ((some ⟨false⟩ : Option EbafEventPrinter).map EbafEventPrinter.jsonl).getD false =
      true := Bool.false_ne_true
  rw [handleCryptoEvent, if_neg (Nat.lt_irrefl _), if_neg hjsonl, printf, hpieces]
  simp only [eventTextTails, EbafCryptoEvent.args, formatSampleHex, fill, List.take_succ_cons,
    List.take_zero, List.append_assoc, List.append_nil]
  rfl

/-- An event is a line. -/
theorem oneLine_event (jsonl : Bool) (event : EbafCryptoEvent) :
    OneLine (handleCryptoEvent (some ⟨jsonl⟩) event EbafCryptoEvent.size) := by
  have hargs : ∀ arg ∈ event.args, PlainText arg :=
    fun arg harg => (plainWord_args event arg harg).plain
  cases jsonl with
  | true =>
    refine ⟨event.json, handleCryptoEvent_jsonl event (Nat.le_refl _), ?_⟩
    have htails : ∀ tail ∈ eventTails, PlainText tail := by decide
    rw [json_eq]
    exact .append (by decide) (forall_mem_fill htails hargs)
  | false =>
    have htails : ∀ tail ∈ eventTextTails, PlainText tail := by decide
    rw [handleCryptoEvent_text]
    exact ⟨_, (List.append_assoc ..).symm, .append (by decide) (forall_mem_fill htails hargs)⟩

/-- Assignments printed one behind the other, and the end of the line. -/
theorem oneLine_fill {entries : List (CString × Nat)} (n : Nat)
    (h : ∀ entry ∈ entries, PlainText entry.1) :
    OneLine (fill (entries.map (fun entry => lit " " ++ (entry.1 ++ lit "=")) ++ [lit "\n"])
      (decimal n :: entries.map fun entry => decimal entry.2)) := by
  induction entries generalizing n with
  | nil => exact ⟨decimal n, rfl, (plainWord_decimal n).plain⟩
  | cons entry entries ih =>
    obtain ⟨body, hbody, hplain⟩ := ih entry.2 fun e he => h e (List.mem_cons_of_mem _ he)
    refine ⟨decimal n ++ ((lit " " ++ (entry.1 ++ lit "=")) ++ body), ?_, ?_⟩
    · rw [List.append_assoc, List.append_assoc, ← hbody]
      rfl
    · have hkey : PlainText (lit " " ++ (entry.1 ++ lit "=")) :=
        .append (by decide) (.append (h entry List.mem_cons_self) (by decide))
      exact (plainWord_decimal n).plain.append (hkey.append hplain)

/-- The statistics are a line. -/
theorem oneLine_statsLine (total : EbafCryptoStats) : OneLine (statsLine total) := by
  have hkeys : ∀ entry ∈ (statsEntries total).tail, PlainText entry.1 := by
    intro entry hentry
    obtain ⟨c, -, rfl⟩ := List.mem_map.mp (List.mem_of_mem_tail hentry)
    show PlainText c.key
    cases c <;> decide
  obtain ⟨body, hbody, hplain⟩ := oneLine_fill (total .packetsSeen).toNat hkeys
  refine ⟨lit "seen=" ++ body, ?_, .append (by decide) hplain⟩
  rw [statsLine_eq, hbody, List.append_assoc]

theorem oneLine_printed : ∀ text ∈ outs.map (fun out => out.item.text cfg), OneLine text := by
  intro text htext
  obtain ⟨⟨item, n⟩, -, rfl⟩ := List.mem_map.mp htext
  cases item with
  | stats now found total => exact oneLine_statsLine total
  | event ev => exact oneLine_event cfg.outputJsonl ev

end Printing

/-! ## What a reader makes of its lines -/

/-- The lines a reader has taken from its pipe. -/
def linesRead (r : Reader) (acts : List DashboardAct) : List CString :=
  acts.filterMap fun a =>
    match a with
    | .start r' line _ _ => if r' = r then some line else none
    | _ => none

/-- The events among lines. -/
def eventsIn (loads : CString → Option TcEvent) (r : Reader) (lines : List CString) : List TcEvent :=
  lines.filterMap fun line => lineEvent loads (r.handedOn line)

/-- The packets a reader has made. -/
def Dashboard.madeBy (r : Reader) (s : Dashboard) : List Record :=
  s.created.filter fun record => record.reader = r

/-- The packet is one of this event. -/
def PacketOf (trafficSource : CString) (record : Record) (event : TcEvent) : Prop :=
  ∃ time seq metadata, record.packet = eventPacket trafficSource time event seq metadata

namespace Dashboard
variable {loads : CString → Option TcEvent} {s s' : Dashboard} {a : DashboardAct} {r : Reader}
  {acts : List DashboardAct} {trafficSource : CString}

/-- A reader has made a packet of every event among its lines. -/
def Follows (loads : CString → Option TcEvent) (r : Reader) (trafficSource : CString)
    (acts : List DashboardAct) (s : Dashboard) : Prop :=
  s.demo.trafficSource = trafficSource ∧
    List.Forall₂ (PacketOf trafficSource) (s.madeBy r) (eventsIn loads r (linesRead r acts))

/-- A step in which the reader reads no event. -/
theorem Follows.on (hs : s.Follows loads r trafficSource acts) {t : Dashboard}
    (hsource : t.demo.trafficSource = s.demo.trafficSource) (hmade : t.madeBy r = s.madeBy r)
    (hevents : eventsIn loads r (linesRead r [a]) = []) :
    t.Follows loads r trafficSource (acts ++ [a]) := by
  refine ⟨hsource.trans hs.1, ?_⟩
  rw [hmade, linesRead, List.filterMap_append, eventsIn, List.filterMap_append]
  have hnone : (linesRead r [a]).filterMap (fun line => lineEvent loads (r.handedOn line)) = [] :=
    hevents
  rw [linesRead] at hnone
  rw [hnone, List.append_nil]
  exact hs.2

theorem Follows.step (hs : s.Follows loads r trafficSource acts) (h : step loads s a = some s') :
    s'.Follows loads r trafficSource (acts ++ [a]) := by
  cases step_cases h with
  | send rand extras hdrawn => exact hs.on rfl rfl rfl
  | read r' line time datagram event hpc hevent =>
    by_cases hr : r' = r
    · subst hr
      have hread : eventsIn loads r' (linesRead r' (acts ++ [.start r' line time datagram])) =
          eventsIn loads r' (linesRead r' acts) ++ [event] := by
        rw [linesRead, List.filterMap_append, eventsIn, List.filterMap_append]
        congr 1
        simp [hevent]
      have hmade : madeBy r' (s.read r' (s.recordOf r' time datagram event)) =
          s.madeBy r' ++ [s.recordOf r' time datagram event] := by
        rw [madeBy, Dashboard.read, List.filter_append]
        congr 1
        exact List.filter_cons_of_pos (decide_eq_true rfl)
      refine ⟨hs.1, ?_⟩
      rw [hread, hmade]
      refine List.rel_append hs.2 (.cons ⟨time, s.demo.eventCount,
        s.demo.sentBySeq.lookup s.demo.eventCount, ?_⟩ .nil)
      rw [← hs.1]
      rfl
    · -- the other reader's packets are not counted here
      refine hs.on rfl ?_ ?_
      · rw [madeBy, Dashboard.read, List.filter_append, List.filter_cons_of_neg (by simp [recordOf, hr])]
        exact List.append_nil _
      · simp [linesRead, hr, eventsIn]
  | note r' line time datagram hpc hevent =>
    refine hs.on rfl rfl ?_
    by_cases hr : r' = r
    · subst hr
      simp [linesRead, eventsIn, hevent]
    · simp [linesRead, hr, eventsIn]
  | count r' record hpc => exact hs.on rfl rfl rfl
  | insert r' record hpc => exact hs.on rfl rfl rfl
  | rates r' line now hpc =>
    refine hs.on ?_ rfl rfl
    simp only [Dashboard.rates, DemoState.updateStats]
    split <;> rfl

/-- **In every run a reader has made a packet of every event among its lines**, in their
order. -/
theorem follows_run {started : Rat}
    (h : run (step loads) (init started trafficSource) acts = some s) :
    s.Follows loads r trafficSource acts := by
  have hinit : Follows loads r trafficSource [] (init started trafficSource) := ⟨rfl, .nil⟩
  exact run_history (fun _ _ _ _ hm hstep => Follows.step hm hstep) hinit h

end Dashboard

/-! ## The whole way -/

section Way
variable {K : CryptoKernel Ctx} {cfg : EbafUserConfig} {c : Ctx} {outs : List Output} {r : Reader}

/-- The events among the lines a process prints with `--jsonl`. -/
theorem eventsIn_printed (hjson : cfg.outputJsonl = true) (r : Reader) (outs : List Output) :
    eventsIn loadsEvent r (outs.map fun out => out.item.text cfg) =
      (printedEvents outs).map EbafCryptoEvent.tcEvent := by
  induction outs with
  | nil => rfl
  | cons out outs ih =>
    obtain ⟨item, n⟩ := out
    cases item with
    | stats now found total =>
      have hnone : lineEvent loadsEvent (r.handedOn (Printed.text cfg (.stats now found total))) =
          none :=
        lineEvent_statsLine loadsEvent r total
      rw [List.map_cons, eventsIn,
        List.filterMap_cons_none (f := fun line => lineEvent loadsEvent (r.handedOn line)) hnone]
      exact ih
    | event ev =>
      have hsome : lineEvent loadsEvent (r.handedOn (Printed.text cfg (.event ev))) =
          some ev.tcEvent := by
        rw [Printed.text, hjson, handleCryptoEvent_jsonl ev (Nat.le_refl _)]
        exact lineEvent_json r ev
      rw [List.map_cons, eventsIn,
        List.filterMap_cons_some (f := fun line => lineEvent loadsEvent (r.handedOn line)) hsome]
      exact congrArg (ev.tcEvent :: ·) ih

end Way

/-- The events printed on the lines a reader has taken. -/
def eventsTaken (r : Reader) (demoActs : List DashboardAct) (outs : List Output) :
    List EbafCryptoEvent :=
  printedEvents (outs.take (linesRead r demoActs).length)

/-- **The packets a reader has made** of the lines a process prints are those of the events
on these lines, and each event is one of a packet that has crossed. -/
theorem forall₂_madeBy {Other Ctx : Type} {e : MainEnv Ctx} {o : Others Other} {argv : List CString}
    {cfg : EbafUserConfig} {s₀ : LoaderState Other Ctx} (hstart : startMain e o argv = .started cfg s₀)
    (hjson : cfg.outputJsonl = true) {K : CryptoKernel Ctx} {cpus : Nat} {startTime : Int}
    {acts : List (MainAct Ctx cpus)} {s : MainState Ctx cpus}
    (hrun : run (MainState.step K s₀.kernel cfg) (.init startTime) acts = some s) {r : Reader}
    {trafficSource : CString} {demoActs : List DashboardAct} {d : Dashboard}
    (hdemo : d.Follows loadsEvent r trafficSource demoActs)
    (hpipe : linesRead r demoActs <+:
      readLines [] (s.printed.map fun out => out.item.text cfg).flatten) :
    List.Forall₂ (fun ev record => ∃ x ∈ s.crossed, ev ∈ (x.result K).events ∧
        ∃ call, (x.result K).cipherCalls = [call] ∧ Reports K x.frame call ev ∧
          ((x.program = .transparent → SampleLoadsOk x.env) → FullSample call ev) ∧
          Shows K x.frame cfg.crypto call ev.sampleLen.toNat record.packet)
      (eventsTaken r demoActs s.printed) (d.madeBy r) := by
  obtain ⟨c, -, hwatched⟩ := watched_run hstart
  have hreport := (hwatched K cpus startTime acts s hrun).report
  rw [readLines_flatten (oneLine_printed)] at hpipe
  -- the lines read are those of the first outputs
  have hread : linesRead r demoActs = (s.printed.take (linesRead r demoActs).length).map
      fun out => out.item.text cfg := by
    rw [List.map_take]
    exact List.prefix_iff_eq_take.mp hpipe
  have hevents := congrArg (eventsIn loadsEvent r) hread
  rw [eventsIn_printed hjson] at hevents
  have hmade := hdemo.2
  rw [hevents, List.forall₂_map_right_iff] at hmade
  have hfirst : eventsTaken r demoActs s.printed <+: printedEvents s.printed :=
    (List.take_prefix _ _).filterMap _
  have hall : ∀ ev ∈ eventsTaken r demoActs s.printed,
      ∃ x ∈ s.crossed, ev ∈ (x.result K).events ∧
        ∃ call, (x.result K).cipherCalls = [call] ∧ Reports K x.frame call ev ∧
          ((x.program = .transparent → SampleLoadsOk x.env) → FullSample call ev) :=
    fun ev hev => hreport.reports ev (hfirst.subset hev)
  refine ((List.forall₂_and_left _ _).mpr ⟨hall, hmade.flip⟩).imp ?_
  rintro ev record ⟨⟨x, hx, hev, call, hcall, hreports, hfull⟩, time, seq, metadata, hpacket⟩
  obtain ⟨answers, hkeyed⟩ := (hreport.keyed x hx).2
  obtain ⟨config, hconfig, haction, halgo⟩ := x.program.namesConfig K x.env
    (s := entering x.frame (some x.entry)) (List.forall_mem_nil _) ev hev
  have hcfg : config = cfg.crypto := by
    rw [hkeyed] at hconfig
    exact (Option.some.inj hconfig).symm
  subst hcfg
  refine ⟨x, hx, hev, call, hcall, hreports, hfull, ?_⟩
  rw [hpacket]
  exact shows_eventPacket hreports haction halgo trafficSource time seq metadata

/-- **The packets of the page are those of the programs.**  However the steps of a run of
`main`, started with `--jsonl`, and those of the dashboard fall, as long as a reader gets
the lines of that process: the packets the reader has made are, one for one and in order,
those of the events among the lines it has read, which are the first ones the programs
have submitted; each shows the frame its program received, with the configured action and
algorithm, and the body as the cipher call left it.  Once everything is polled and read
there is a packet for every event. -/
theorem page_follows_programs {Other Ctx : Type} (e : MainEnv Ctx) (o : Others Other)
    (argv : List CString) (cfg : EbafUserConfig) (s₀ : LoaderState Other Ctx)
    (hstart : startMain e o argv = .started cfg s₀) (hjson : cfg.outputJsonl = true)
    (K : CryptoKernel Ctx) (cpus : Nat) (startTime : Int) (acts : List (MainAct Ctx cpus))
    (s : MainState Ctx cpus)
    (hrun : run (MainState.step K s₀.kernel cfg) (.init startTime) acts = some s) (r : Reader)
    (started : Rat) (trafficSource : CString) (demoActs : List DashboardAct) (d : Dashboard)
    (hdemo : run (Dashboard.step loadsEvent) (.init started trafficSource) demoActs = some d)
    (hpipe : linesRead r demoActs <+:
      readLines [] (s.printed.map fun out => out.item.text cfg).flatten) :
    eventsTaken r demoActs s.printed <+: Crossing.events K s.crossed ∧
      List.Forall₂ (fun ev record => ∃ x ∈ s.crossed, ev ∈ (x.result K).events ∧
        ∃ call, (x.result K).cipherCalls = [call] ∧ call.ok = true ∧
          Shows K x.frame cfg.crypto call ev.sampleLen.toNat record.packet)
        (eventsTaken r demoActs s.printed) (d.madeBy r) ∧
      (s.ring = [] → linesRead r demoActs =
          readLines [] (s.printed.map fun out => out.item.text cfg).flatten →
        eventsTaken r demoActs s.printed = Crossing.events K s.crossed) := by
  obtain ⟨c, -, hwatched⟩ := watched_run hstart
  have hevents := (hwatched K cpus startTime acts s hrun).report.accounts.events
  have hmade := forall₂_madeBy hstart hjson hrun (Dashboard.follows_run hdemo) hpipe
  have hfirst : eventsTaken r demoActs s.printed <+: printedEvents s.printed :=
    (List.take_prefix _ _).filterMap _
  have hprinted : printedEvents s.printed <+: Crossing.events K s.crossed := by
    rw [← hevents]
    exact List.prefix_append _ _
  refine ⟨hfirst.trans hprinted, hmade.imp ?_, ?_⟩
  · rintro ev record ⟨x, hx, hev, call, hcall, hreports, -, hshows⟩
    exact ⟨x, hx, hev, call, hcall, hreports.ok, hshows⟩
  · -- as many lines have been read as outputs were printed
    intro hring hallread
    have hlength : (linesRead r demoActs).length = s.printed.length := by
      rw [hallread, readLines_flatten (oneLine_printed), List.length_map]
    rw [eventsTaken, hlength, List.take_length, ← hevents, hring, List.append_nil]

/-! ## One packet on its way -/

/-- The reader takes both lines. -/
def blockReads : List DashboardAct :=
  [.start .encrypt (statsLine blockTotal) [] 0, .rates .encrypt 1,
    .start .encrypt (handleCryptoEvent (some ⟨true⟩) crossingEvent EbafCryptoEvent.size) [] 0]

/-- The dashboard then: the packet is made and not stored yet. -/
def blockDashboard : Dashboard :=
  let d : Dashboard := ((Dashboard.init 0 []).note .encrypt
    (Reader.encrypt.handedOn (statsLine blockTotal))).rates .encrypt
      (Reader.encrypt.handedOn (statsLine blockTotal)) 1
  d.read .encrypt (d.recordOf .encrypt [] 0 crossingEvent.tcEvent)

theorem run_blockReads :
    run (Dashboard.step loadsEvent) (.init 0 []) blockReads = some blockDashboard := by
  have hstats : lineEvent loadsEvent (Reader.encrypt.handedOn (statsLine blockTotal)) = none :=
    lineEvent_statsLine ..
  have hevent : lineEvent loadsEvent (Reader.encrypt.handedOn
      (handleCryptoEvent (some ⟨true⟩) crossingEvent EbafCryptoEvent.size)) =
        some crossingEvent.tcEvent := by
    rw [handleCryptoEvent_jsonl crossingEvent (Nat.le_refl _)]
    exact lineEvent_json ..
  let d₀ : Dashboard := .init 0 []
  let d₁ := d₀.note .encrypt (Reader.encrypt.handedOn (statsLine blockTotal))
  let d₂ := d₁.rates .encrypt (Reader.encrypt.handedOn (statsLine blockTotal)) 1
  have hnote : Dashboard.step loadsEvent d₀ (.start .encrypt (statsLine blockTotal) [] 0) =
      some d₁ := by
    simp only [Dashboard.step, hstats]
    rfl
  have hrates : Dashboard.step loadsEvent d₁ (.rates .encrypt 1) = some d₂ := rfl
  have hread : Dashboard.step loadsEvent d₂ (.start .encrypt
      (handleCryptoEvent (some ⟨true⟩) crossingEvent EbafCryptoEvent.size) [] 0) =
        some (d₂.read .encrypt (d₂.recordOf .encrypt [] 0 crossingEvent.tcEvent)) := by
    simp only [Dashboard.step, hevent]
    rfl
  rw [blockReads, run_cons hnote, run_cons hrates, run_cons hread]
  rfl

/-- It has read all that was printed. -/
theorem linesRead_blockReads : linesRead .encrypt blockReads =
    readLines [] (blockEnd.printed.map fun out => out.item.text jsonlConfig).flatten := by
  rw [readLines_flatten (oneLine_printed)]
  rw [printed_blockEnd]
  rfl

theorem page_follows_of_block : ∃ s₀ s d,
    startMain ⟨.smooth, none, fun _ => []⟩ (.nobody Unit) jsonlArgv = .started jsonlConfig s₀ ∧
    run (MainState.step (knownKernel _) s₀.kernel jsonlConfig) (.init 100) blockActs = some s ∧
    run (Dashboard.step loadsEvent) (.init 0 []) blockReads = some d ∧
    eventsTaken .encrypt blockReads s.printed = [crossingEvent] ∧
    List.Forall₂ (fun ev record => ∃ x ∈ s.crossed, ev ∈ (x.result (knownKernel _)).events ∧
      ∃ call, (x.result (knownKernel _)).cipherCalls = [call] ∧ call.ok = true ∧
        Shows (knownKernel _) x.frame jsonlConfig.crypto call ev.sampleLen.toNat record.packet)
      (eventsTaken .encrypt blockReads s.printed) (d.madeBy .encrypt) := by
  obtain ⟨-, hall, hevery⟩ := page_follows_programs (⟨.smooth, none, fun _ => []⟩ : MainEnv _)
    (.nobody Unit) jsonlArgv jsonlConfig _ startMain_jsonl rfl (knownKernel _) 1 100 blockActs _
    run_blockActs .encrypt 0 [] blockReads blockDashboard run_blockReads
    (linesRead_blockReads ▸ List.prefix_rfl)
  have hevents : Crossing.events (knownKernel _) blockEnd.crossed = [crossingEvent] := by
    show (blockCrossing.result (knownKernel _)).events ++ [] = _
    rw [events_blockCrossing]
    rfl
  exact ⟨_, _, blockDashboard, startMain_jsonl, run_blockActs, run_blockReads,
    (hevery ring_blockEnd linesRead_blockReads).trans hevents, hall⟩

end Ebaf
