import Ebaf.BoundedLog
import Ebaf.EventSequence

/-! # What the dashboard keeps of a run

Beside the sender and the readers of the two programs, two threads only note what the
receiver and ffmpeg print.  `DemoState` keeps a part of what has happened: the newest
packets, samples and lines, and of what was sent the newest few hundred records.
-/
namespace Ebaf
open CStrings Runs BoundedLog

/-! ## All threads -/

/-- A line of `app_lines`, of which the last forty are kept. -/
def DemoState.appendLine (demo : DemoState) (text : CString) : DemoState :=
  let lines := demo.appLines ++ [text]
  { demo with appLines := lines.drop (lines.length - 40) }

theorem DemoState.appendLine_appLines (demo : DemoState) (text : CString) :
    (demo.appendLine text).appLines = (demo.appLines ++ [text]).rtake 40 := by
  rw [List.rtake]
  rfl

/-- The dashboard and the datagrams the receiver has reported. -/
structure LiveDemo where
  board : Dashboard
  serverCount : Nat

/-- The steps: those of the dashboard, a line of the receiver, a line of ffmpeg. -/
inductive LiveAct where
  | board (a : DashboardAct)
  | receiver (line : CString)
  | ffmpeg (line : CString)

/-- The line says that a datagram was received. -/
def SaysReceived (line : CString) : Prop := (lit "received=").isPrefixOf line = true

instance (line : CString) : Decidable (SaysReceived line) := inferInstanceAs (Decidable (_ = _))

namespace LiveDemo

def init (started : Rat) (trafficSource : CString) : LiveDemo where
  board := Dashboard.init started trafficSource
  serverCount := 0

/-- `_read_receiver` -/
def readReceiver (s : LiveDemo) (line : CString) : LiveDemo where
  board := { s.board with demo := s.board.demo.appendLine (lit "receiver: " ++ strip line) }
  serverCount := if SaysReceived line then s.serverCount + 1 else s.serverCount

/-- `_read_sender` -/
def readSender (s : LiveDemo) (line : CString) : LiveDemo :=
  { s with board := { s.board with demo := s.board.demo.appendLine (lit "ffmpeg: " ++ strip line) } }

def step (loads : CString → Option TcEvent) (s : LiveDemo) : LiveAct → Option LiveDemo
  | .board a => (s.board.step loads a).map fun board => { s with board := board }
  | .receiver line => some (s.readReceiver line)
  | .ffmpeg line => some (s.readSender line)

variable {loads : CString → Option TcEvent} {s s' : LiveDemo} {a : LiveAct}

/-- What a step can do. -/
inductive Step (loads : CString → Option TcEvent) (s : LiveDemo) : LiveAct → LiveDemo → Prop where
  | board (a : DashboardAct) (board : Dashboard) (hstep : Dashboard.Step loads s.board a board) :
    Step loads s (.board a) { s with board := board }
  | receiver (line : CString) : Step loads s (.receiver line) (s.readReceiver line)
  | ffmpeg (line : CString) : Step loads s (.ffmpeg line) (s.readSender line)

/-- **Every step is one of these.** -/
theorem step_cases (h : step loads s a = some s') : Step loads s a s' := by
  cases a with
  | board a =>
    obtain ⟨board, hboard, rfl⟩ := Option.map_eq_some_iff.mp h
    exact .board a board (Dashboard.step_cases hboard)
  | receiver line =>
    obtain rfl := Option.some.inj h
    exact .receiver line
  | ffmpeg line =>
    obtain rfl := Option.some.inj h
    exact .ffmpeg line

end LiveDemo

/-! ## What has happened -/

/-- What the steps have done: the numbers drawn for each datagram, the events counted, the
datagrams the receiver has reported, the texts noted, the packet each reader has made last
and the line it has noted last, the packets stored, and the counters named. -/
structure Past where
  draws : List (Nat × List Nat)
  counted : Nat
  received : Nat
  texts : List CString
  made : Reader → Option DemoPacket
  noted : Reader → CString
  stored : List DemoPacket
  counters : StatsDict

/-- The counters after a line: if it names `seen`, each that it names is the one named. -/
def StatsDict.named (counters : StatsDict) (line : CString) : StatsDict :=
  if lineParts line (lit "seen") = none then counters
  else fun key => (lineParts line key).or (counters key)

namespace Past

def empty : Past where
  draws := []
  counted := 0
  received := 0
  texts := []
  made := fun _ => none
  noted := fun _ => []
  stored := []
  counters := (DemoState.init 0 []).stats

/-- How many of the datagrams sent are on record: the newest, up to 512, and after the
first 385 never fewer than that. -/
def recorded (p : Past) : Nat := kept 512 128 p.draws.length

/-- What is on record of the datagrams sent. -/
def window (p : Past) : List (Nat × Metadata) :=
  (numbered (fun seq draw => sentMetadata seq draw.1 draw.2) 0 p.draws).rtake p.recorded

/-- What was recorded of a datagram, as long as it is. -/
def metadata (p : Past) (seq : Nat) : Option Metadata :=
  if p.draws.length ≤ seq + p.recorded then
    (p.draws[seq]?).map fun draw => sentMetadata seq draw.1 draw.2
  else none

theorem lookup_window (p : Past) (seq : Nat) : p.window.lookup seq = p.metadata seq :=
  lookup_rtake_numbered _ _ _ _

theorem recorded_bounds (p : Past) :
    min p.draws.length 385 ≤ p.recorded ∧ p.recorded ≤ min p.draws.length 512 :=
  ⟨le_kept 512 128 _, Nat.le_min.mpr ⟨kept_le_self .., kept_le (by decide) _⟩⟩

/-- The packet of an event: it has the number of events counted so far, and shows what is
on record of the datagram with that number. -/
def packetOf (p : Past) (trafficSource time : CString) (event : TcEvent) : DemoPacket :=
  eventPacket trafficSource time event p.counted (p.metadata p.counted)

/-- What a step adds. -/
def after (loads : CString → Option TcEvent) (trafficSource : CString) (p : Past) : LiveAct → Past
  | .board (.send rand extras) => { p with draws := p.draws ++ [(rand, extras)] }
  | .board (.start r line time _) =>
    match lineEvent loads (r.handedOn line) with
    | some event =>
      { p with made := Function.update p.made r (some (p.packetOf trafficSource time event)) }
    | none =>
      { p with
        texts := p.texts ++ [strip (r.handedOn line)]
        noted := Function.update p.noted r (r.handedOn line) }
  | .board (.count _) => { p with counted := p.counted + 1 }
  | .board (.insert r) => { p with stored := p.stored ++ (p.made r).toList }
  | .board (.rates r _) => { p with counters := p.counters.named (p.noted r) }
  | .receiver line =>
    { p with
      received := if SaysReceived line then p.received + 1 else p.received
      texts := p.texts ++ [lit "receiver: " ++ strip line] }
  | .ffmpeg line => { p with texts := p.texts ++ [lit "ffmpeg: " ++ strip line] }

section After
variable {loads : CString → Option TcEvent} {trafficSource : CString} {r : Reader} {line : CString}
  {event : TcEvent}

/-- What the steps have done, one after the other. -/
def of (loads : CString → Option TcEvent) (trafficSource : CString) (acts : List LiveAct) : Past :=
  acts.foldl (after loads trafficSource) empty

theorem of_concat (loads : CString → Option TcEvent) (trafficSource : CString)
    (acts : List LiveAct) (a : LiveAct) :
    of loads trafficSource (acts ++ [a]) = (of loads trafficSource acts).after loads trafficSource a := by
  rw [of, List.foldl_append]
  rfl

theorem after_event (h : lineEvent loads (r.handedOn line) = some event) (p : Past) (time : CString)
    (datagram : Nat) : p.after loads trafficSource (.board (.start r line time datagram)) =
      { p with made := Function.update p.made r (some (p.packetOf trafficSource time event)) } := by
  simp only [after, h]

theorem after_line (h : lineEvent loads (r.handedOn line) = none) (p : Past) (time : CString)
    (datagram : Nat) : p.after loads trafficSource (.board (.start r line time datagram)) =
      { p with
        texts := p.texts ++ [strip (r.handedOn line)]
        noted := Function.update p.noted r (r.handedOn line) } := by
  simp only [after, h]

end After

end Past

/-! ## What is kept of it -/

/-- The newest packets with a sample. -/
def Dashboard.Sampled (s : Dashboard) : Prop :=
  s.demo.samples =
    (((s.stored.map Record.packet).filter fun packet => packet.cipherHex ≠ []).reverse).take 8

/-- The state of the dashboard as a part of what has happened. -/
structure LiveDemo.Keeps (trafficSource : CString) (p : Past) (s : LiveDemo) : Prop where
  seq : s.board.seq = p.draws.length
  senderCount : s.board.demo.senderCount = p.draws.length
  sentBySeq : s.board.demo.sentBySeq = p.window
  eventCount : s.board.demo.eventCount = p.counted
  serverCount : s.serverCount = p.received
  appLines : s.board.demo.appLines = p.texts.rtake 40
  source : s.board.demo.trafficSource = trafficSource

/-- A new key goes to the end. -/
theorem dictSet_new {V : Type} {key : Nat} {value : V} {entries : List (Nat × V)}
    (h : ∀ entry ∈ entries, entry.1 ≠ key) : dictSet key value entries = entries ++ [(key, value)] := by
  induction entries with
  | nil => rfl
  | cons entry entries ih =>
    rw [dictSet, if_neg (h entry List.mem_cons_self),
      ih fun entry' hmem => h entry' (List.mem_cons_of_mem _ hmem), List.cons_append]

namespace LiveDemo
variable {loads : CString → Option TcEvent} {s s' : LiveDemo} {a : LiveAct} {acts : List LiveAct}
  {p : Past} {trafficSource : CString}

/-- The sender's section keeps the newest records. -/
theorem recordSent_window (p : Past) {demo : DemoState} (h : demo.sentBySeq = p.window) (rand : Nat)
    (extras : List Nat) :
    (demo.recordSent p.draws.length (sentMetadata p.draws.length rand extras)).sentBySeq =
      (p.after loads trafficSource (.board (.send rand extras))).window := by
  have hnew : ∀ entry ∈ p.window, entry.1 ≠ p.draws.length := by
    intro entry hentry
    have hmem := (rtake_suffix _ _).subset hentry
    have hne := ne_of_mem_numbered _ hmem
    rwa [Nat.zero_add] at hne
  have hslide := slide_rtake 512 128
    (numbered (fun seq draw => sentMetadata seq draw.1 draw.2) 0 p.draws)
    (p.draws.length, sentMetadata p.draws.length rand extras)
  rw [length_numbered] at hslide
  simp only [DemoState.recordSent, Past.window, Past.recorded, Past.after, numbered_concat,
    Nat.zero_add, List.length_append, List.length_singleton] at *
  rw [h, dictSet_new hnew]
  exact hslide

/-- **What one step adds is kept.** -/
theorem Keeps.step (hs : s.Keeps trafficSource p) (h : step loads s a = some s') :
    s'.Keeps trafficSource (p.after loads trafficSource a) := by
  have noted : ∀ text : CString, (s.board.demo.appendLine text).appLines = (p.texts ++ [text]).rtake 40 := by
    intro text
    rw [DemoState.appendLine_appLines, hs.appLines, rtake_concat_rtake]
  cases step_cases h with
  | board a board hstep =>
    cases hstep with
    | send rand extras hdrawn =>
      have hlen : s.board.seq + 1 = (p.draws ++ [(rand, extras)]).length := by
        rw [List.length_append, List.length_singleton, hs.seq]
      have hcount : s.board.demo.senderCount + 1 = (p.draws ++ [(rand, extras)]).length := by
        rw [List.length_append, List.length_singleton, hs.senderCount]
      refine ⟨hlen, hcount, ?_, hs.eventCount, hs.serverCount, hs.appLines, hs.source⟩
      show (s.board.demo.recordSent s.board.seq (sentMetadata s.board.seq rand extras)).sentBySeq = _
      rw [hs.seq]
      exact recordSent_window p hs.sentBySeq rand extras
    | read r line time datagram event hpc hevent =>
      rw [Past.after_event hevent]
      exact ⟨hs.seq, hs.senderCount, hs.sentBySeq, hs.eventCount, hs.serverCount, hs.appLines,
        hs.source⟩
    | note r line time datagram hpc hevent =>
      rw [Past.after_line hevent]
      exact ⟨hs.seq, hs.senderCount, hs.sentBySeq, hs.eventCount, hs.serverCount,
        noted (strip (r.handedOn line)), hs.source⟩
    | count r record hpc =>
      exact ⟨hs.seq, hs.senderCount, hs.sentBySeq, congrArg (· + 1) hs.eventCount, hs.serverCount,
        hs.appLines, hs.source⟩
    | insert r record hpc =>
      exact ⟨hs.seq, hs.senderCount, hs.sentBySeq, hs.eventCount, hs.serverCount, hs.appLines,
        hs.source⟩
    | rates r line now hpc =>
      -- the counters of a line are all that changes
      have hframe : (s.board.rates r line now).demo.senderCount = s.board.demo.senderCount ∧
          (s.board.rates r line now).demo.sentBySeq = s.board.demo.sentBySeq ∧
          (s.board.rates r line now).demo.eventCount = s.board.demo.eventCount ∧
          (s.board.rates r line now).demo.appLines = s.board.demo.appLines ∧
          (s.board.rates r line now).demo.trafficSource = s.board.demo.trafficSource := by
        simp only [Dashboard.rates, DemoState.updateStats]
        split <;> exact ⟨rfl, rfl, rfl, rfl, rfl⟩
      obtain ⟨hsenders, hsent, hevents, hlines, hsource⟩ := hframe
      exact ⟨hs.seq, hsenders.trans hs.senderCount, hsent.trans hs.sentBySeq,
        hevents.trans hs.eventCount, hs.serverCount, hlines.trans hs.appLines,
        hsource.trans hs.source⟩
  | receiver line =>
    refine ⟨hs.seq, hs.senderCount, hs.sentBySeq, hs.eventCount, ?_,
      noted (lit "receiver: " ++ strip line), hs.source⟩
    rw [readReceiver, Past.after, hs.serverCount]
  | ffmpeg line =>
    exact ⟨hs.seq, hs.senderCount, hs.sentBySeq, hs.eventCount, hs.serverCount,
      noted (lit "ffmpeg: " ++ strip line), hs.source⟩

/-- What the readers have in hand, and what they have stored and counted. -/
structure Delivers (p : Past) (s : LiveDemo) : Prop where
  made : ∀ r, ∀ record ∈ (s.board.pc r).held, p.made r = some record.packet
  noted : ∀ r line, s.board.pc r = .noted line → p.noted r = line
  stored : s.board.stored.map Record.packet = p.stored
  counters : s.board.demo.stats = p.counters

/-- A reader moves on with what it has in hand, or puts it down. -/
theorem Delivers.move (hs : s.Delivers p) {t : LiveDemo} {r : Reader} {pc : Pc}
    (hpc : t.board.pc = Function.update s.board.pc r pc)
    (hheld : ∀ record ∈ pc.held, record ∈ (s.board.pc r).held) (hnew : ∀ line, pc ≠ .noted line)
    {p' : Past} (hmade : p'.made = p.made) (hnoted : p'.noted = p.noted)
    (hstored : t.board.stored.map Record.packet = p'.stored)
    (hcounters : t.board.demo.stats = p'.counters) : t.Delivers p' := by
  refine ⟨fun r' record hrecord => ?_, fun r' line hline => ?_, hstored, hcounters⟩
  · rw [hmade]
    rw [hpc] at hrecord
    by_cases hr : r' = r
    · rw [hr, Function.update_self] at hrecord
      rw [hr]
      exact hs.made r record (hheld record hrecord)
    · rw [Function.update_of_ne hr] at hrecord
      exact hs.made r' record hrecord
  · rw [hnoted]
    rw [hpc] at hline
    by_cases hr : r' = r
    · rw [hr, Function.update_self] at hline
      exact absurd hline (hnew line)
    · rw [Function.update_of_ne hr] at hline
      exact hs.noted r' line hline

/-- **What one step adds is delivered.** -/
theorem Delivers.step (hs : s.Delivers p) (hkeeps : s.Keeps trafficSource p)
    (h : step loads s a = some s') : s'.Delivers (p.after loads trafficSource a) := by
  cases step_cases h with
  | board a board hstep =>
    cases hstep with
    | send rand extras hdrawn => exact ⟨hs.made, hs.noted, hs.stored, hs.counters⟩
    | read r line time datagram event hpc hevent =>
      rw [Past.after_event hevent]
      -- the counter and the records are those of the past, by `Keeps`
      have hpacket : (s.board.recordOf r time datagram event).packet =
          p.packetOf trafficSource time event := by
        rw [Past.packetOf, ← Past.lookup_window, ← hkeeps.eventCount, ← hkeeps.sentBySeq,
          ← hkeeps.source]
        rfl
      refine ⟨fun r' record hrecord => ?_, fun r' text htext => ?_, hs.stored, hs.counters⟩
      · simp only [Dashboard.read] at hrecord
        by_cases hr : r' = r
        · rw [hr, Function.update_self] at hrecord
          obtain rfl := List.mem_singleton.mp hrecord
          rw [hr, hpacket]
          exact Function.update_self ..
        · rw [Function.update_of_ne hr] at hrecord
          exact (Function.update_of_ne hr _ _).trans (hs.made r' record hrecord)
      · simp only [Dashboard.read] at htext
        by_cases hr : r' = r
        · rw [hr, Function.update_self] at htext
          cases htext
        · rw [Function.update_of_ne hr] at htext
          exact hs.noted r' text htext
    | note r line time datagram hpc hevent =>
      rw [Past.after_line hevent]
      refine ⟨fun r' record hrecord => ?_, fun r' text htext => ?_, hs.stored, hs.counters⟩
      · simp only [Dashboard.note] at hrecord
        by_cases hr : r' = r
        · rw [hr, Function.update_self] at hrecord
          cases hrecord
        · rw [Function.update_of_ne hr] at hrecord
          exact hs.made r' record hrecord
      · simp only [Dashboard.note] at htext
        by_cases hr : r' = r
        · rw [hr, Function.update_self] at htext
          rw [hr]
          exact (Function.update_self ..).trans (Pc.noted.inj htext)
        · rw [Function.update_of_ne hr] at htext
          exact (Function.update_of_ne hr _ _).trans (hs.noted r' text htext)
    | count r record hpc =>
      refine hs.move rfl (fun record' hrecord' => ?_) (fun _ => Pc.noConfusion) rfl rfl hs.stored
        hs.counters
      rw [hpc]
      exact hrecord'
    | insert r record hpc =>
      -- the packet inserted is the one this reader has made last
      have hmade : p.made r = some record.packet :=
        hs.made r record (by rw [hpc]; exact List.mem_singleton_self _)
      refine hs.move rfl (fun record' hrecord' => (by cases hrecord')) (fun _ => Pc.noConfusion) rfl
        rfl ?_ hs.counters
      show (s.board.stored ++ [record]).map Record.packet = p.stored ++ (p.made r).toList
      rw [List.map_append, hs.stored, hmade]
      rfl
    | rates r line now hpc =>
      refine hs.move rfl (fun record' hrecord' => (by cases hrecord')) (fun _ => Pc.noConfusion) rfl
        rfl hs.stored ?_
      show (s.board.demo.updateStats line now).stats = p.counters.named (p.noted r)
      rw [hs.noted r line hpc, ← hs.counters, StatsDict.named, DemoState.updateStats]
      split <;> rfl
  | receiver line => exact ⟨hs.made, hs.noted, hs.stored, hs.counters⟩
  | ffmpeg line => exact ⟨hs.made, hs.noted, hs.stored, hs.counters⟩

theorem shown_step (hs : s.board.Shown) (h : step loads s a = some s') : s'.board.Shown := by
  cases a with
  | board a =>
    obtain ⟨board, hboard, rfl⟩ := Option.map_eq_some_iff.mp h
    exact hs.step hboard
  | receiver line =>
    obtain rfl := Option.some.inj h
    exact hs
  | ffmpeg line =>
    obtain rfl := Option.some.inj h
    exact hs

theorem kept_step (hs : s.board.Kept) (h : step loads s a = some s') : s'.board.Kept := by
  cases a with
  | board a =>
    obtain ⟨board, hboard, rfl⟩ := Option.map_eq_some_iff.mp h
    exact hs.step hboard
  | receiver line =>
    obtain rfl := Option.some.inj h
    exact hs
  | ffmpeg line =>
    obtain rfl := Option.some.inj h
    exact hs

theorem sampled_insert {board : Dashboard} (hs : board.Sampled) (r : Reader) (record : Record) :
    (board.insert r record).Sampled := by
  show (if record.packet.cipherHex = [] then board.demo.samples
    else (record.packet :: board.demo.samples).take 8) =
      ((((board.stored ++ [record]).map Record.packet).filter
        fun packet => packet.cipherHex ≠ []).reverse).take 8
  rw [List.map_append, List.map_singleton, List.filter_append, List.reverse_append]
  by_cases hempty : record.packet.cipherHex = []
  · rw [if_pos hempty, List.filter_cons_of_neg (by simp [hempty]), List.filter_nil,
      List.reverse_nil, List.nil_append]
    exact hs
  · rw [if_neg hempty, List.filter_cons_of_pos (by simp [hempty]), List.filter_nil,
      List.reverse_singleton, List.singleton_append, hs, take_cons_take]

theorem sampled_step (hs : s.board.Sampled) (h : step loads s a = some s') : s'.board.Sampled := by
  cases step_cases h with
  | board a board hstep =>
    cases hstep with
    | insert r record hpc => exact sampled_insert hs r record
    | rates r line now hpc =>
      have hframe : (s.board.rates r line now).demo.samples = s.board.demo.samples := by
        simp only [Dashboard.rates, DemoState.updateStats]
        split <;> rfl
      exact hframe.trans hs
    | send rand extras hdrawn => exact hs
    | read r line time datagram event hpc hevent => exact hs
    | note r line time datagram hpc hevent => exact hs
    | count r record hpc => exact hs
  | receiver line => exact hs
  | ffmpeg line => exact hs

end LiveDemo

/-! ## Where a packet comes from -/

/-- The packet was made of a line: it has the number of events counted until then, and
shows what was on record then of the datagram with that number; all datagrams were on
record, or at least the newest 385 and at most 512. -/
def MadeOf (loads : CString → Option TcEvent) (trafficSource : CString) (acts : List LiveAct)
    (packet : DemoPacket) : Prop :=
  ∃ before r line time datagram event p,
    before ++ [.board (.start r line time datagram)] <+: acts ∧
    lineEvent loads (r.handedOn line) = some event ∧
    p = Past.of loads trafficSource before ∧
    packet = eventPacket trafficSource time event p.counted (p.metadata p.counted) ∧
    min p.draws.length 385 ≤ p.recorded ∧ p.recorded ≤ min p.draws.length 512

/-- A line of a program has named this number. -/
def Said (loads : CString → Option TcEvent) (acts : List LiveAct) (key : CString) (n : Nat) : Prop :=
  ∃ r line time datagram, .board (.start r line time datagram) ∈ acts ∧
    lineEvent loads (r.handedOn line) = none ∧
    lineParts (r.handedOn line) (lit "seen") ≠ none ∧ lineParts (r.handedOn line) key = some n

namespace LiveDemo
variable {loads : CString → Option TcEvent} {s s' : LiveDemo} {a : LiveAct} {acts : List LiveAct}
  {p : Past} {trafficSource : CString}

/-- Every packet was made of a line. -/
def Made (loads : CString → Option TcEvent) (trafficSource : CString) (acts : List LiveAct)
    (s : LiveDemo) : Prop :=
  ∀ record ∈ s.board.created, MadeOf loads trafficSource acts record.packet

theorem made_step (hs : s.Made loads trafficSource acts)
    (hkeeps : s.Keeps trafficSource (Past.of loads trafficSource acts))
    (h : step loads s a = some s') :
    s'.Made loads trafficSource (acts ++ [a]) := by
  have old : s.Made loads trafficSource (acts ++ [a]) := by
    intro record hrecord
    obtain ⟨before, r, line, time, datagram, event, p, hbefore, hmade⟩ := hs record hrecord
    exact ⟨before, r, line, time, datagram, event, p, hbefore.trans (List.prefix_append acts [a]),
      hmade⟩
  cases step_cases h with
  | board a board hstep =>
    cases hstep with
    | read r line time datagram event hpc hevent =>
      intro record hrecord
      rcases List.mem_append.mp hrecord with hrecord | hrecord
      · exact old record hrecord
      · -- made now, of what was on record before this step
        obtain rfl := List.mem_singleton.mp hrecord
        refine ⟨acts, r, line, time, datagram, event, _, List.prefix_rfl, hevent, rfl, ?_,
          Past.recorded_bounds _⟩
        rw [← Past.lookup_window, ← hkeeps.eventCount, ← hkeeps.sentBySeq, ← hkeeps.source]
        rfl
    | send rand extras hdrawn => exact old
    | note r line time datagram hpc hevent => exact old
    | count r record hpc => exact old
    | insert r record hpc => exact old
    | rates r line now hpc => exact old
  | receiver line => exact old
  | ffmpeg line => exact old

/-! ## Where a counter comes from -/

/-- A line a reader has noted is one it has started on, and no event. -/
def Noted (loads : CString → Option TcEvent) (acts : List LiveAct) (s : LiveDemo) : Prop :=
  ∀ r text, s.board.pc r = .noted text → ∃ line time datagram,
    .board (.start r line time datagram) ∈ acts ∧ r.handedOn line = text ∧
    lineEvent loads text = none

theorem Noted.move {board : Dashboard} {r : Reader} {pc : Pc} (hs : s.Noted loads acts)
    (hpc : board.pc = Function.update s.board.pc r pc) (hnew : ∀ text, pc ≠ .noted text) :
    Noted loads (acts ++ [a]) { s with board := board } := by
  intro r' text htext
  have hother : s.board.pc r' = .noted text := by
    have hupdate : Function.update s.board.pc r pc r' = .noted text := by
      rw [← hpc]
      exact htext
    by_cases hr : r' = r
    · rw [hr, Function.update_self] at hupdate
      exact absurd hupdate (hnew text)
    · rwa [Function.update_of_ne hr] at hupdate
  obtain ⟨line, time, datagram, hmem, hline⟩ := hs r' text hother
  exact ⟨line, time, datagram, List.mem_append_left _ hmem, hline⟩

theorem Noted.later (hs : s.Noted loads acts) (h : s'.board.pc = s.board.pc) :
    s'.Noted loads (acts ++ [a]) := by
  intro r text htext
  rw [h] at htext
  obtain ⟨line, time, datagram, hmem, hline⟩ := hs r text htext
  exact ⟨line, time, datagram, List.mem_append_left _ hmem, hline⟩

theorem noted_step (hs : s.Noted loads acts) (h : step loads s a = some s') :
    s'.Noted loads (acts ++ [a]) := by
  cases step_cases h with
  | board a board hstep =>
    cases hstep with
    | note r line time datagram hpc hevent =>
      intro r' text htext
      have hupdate : Function.update s.board.pc r (.noted (r.handedOn line)) r' = .noted text := htext
      by_cases hr : r' = r
      · subst hr
        have hnew : Pc.noted (r'.handedOn line) = .noted text := by
          rwa [Function.update_self] at hupdate
        obtain rfl := Pc.noted.inj hnew
        exact ⟨line, time, datagram, List.mem_append_right _ List.mem_cons_self, rfl, hevent⟩
      · have hold : s.board.pc r' = .noted text := by
          rw [← htext]
          exact (Function.update_of_ne hr _ _).symm
        obtain ⟨line', time', datagram', hmem, hline⟩ := hs r' text hold
        exact ⟨line', time', datagram', List.mem_append_left _ hmem, hline⟩
    | send rand extras hdrawn => exact hs.later rfl
    | read r line time datagram event hpc hevent => exact hs.move rfl fun _ => Pc.noConfusion
    | count r record hpc => exact hs.move rfl fun _ => Pc.noConfusion
    | insert r record hpc => exact hs.move rfl fun _ => Pc.noConfusion
    | rates r line now hpc => exact hs.move rfl fun _ => Pc.noConfusion
  | receiver line => exact hs.later rfl
  | ffmpeg line => exact hs.later rfl

/-- Every counter is zero or was named. -/
def Counted (loads : CString → Option TcEvent) (acts : List LiveAct) (s : LiveDemo) : Prop :=
  ∀ key n, s.board.demo.stats key = some n → n = 0 ∨ Said loads acts key n

theorem counted_step (hs : s.Counted loads acts) (hnoted : s.Noted loads acts)
    (h : step loads s a = some s') : s'.Counted loads (acts ++ [a]) := by
  have old : s.Counted loads (acts ++ [a]) := by
    intro key n hn
    rcases hs key n hn with hzero | ⟨r, line, time, datagram, hmem, hsaid⟩
    · exact Or.inl hzero
    · exact Or.inr ⟨r, line, time, datagram, List.mem_append_left _ hmem, hsaid⟩
  cases step_cases h with
  | board a board hstep =>
    cases hstep with
    | rates r text now hpc =>
      intro key n hn
      -- the counters change by a line the reader has noted before
      obtain ⟨line, time, datagram, hmem, rfl, hevent⟩ := hnoted r text hpc
      simp only [Dashboard.rates, DemoState.updateStats] at hn
      split at hn
      · exact old key n hn
      · rename_i hseen
        rcases Option.or_eq_some_iff.mp hn with hnamed | ⟨-, hkept⟩
        · exact Or.inr ⟨r, line, time, datagram, List.mem_append_left _ hmem, hevent, hseen, hnamed⟩
        · exact old key n hkept
    | send rand extras hdrawn => exact old
    | read r line time datagram event hpc hevent => exact old
    | note r line time datagram hpc hevent => exact old
    | count r record hpc => exact old
    | insert r record hpc => exact old
  | receiver line => exact old
  | ffmpeg line => exact old

/-! ## A whole run -/

/-- **All that the state says of what has happened.** -/
structure Remembers (loads : CString → Option TcEvent) (trafficSource : CString)
    (acts : List LiveAct) (s : LiveDemo) : Prop where
  keeps : s.Keeps trafficSource (Past.of loads trafficSource acts)
  delivers : s.Delivers (Past.of loads trafficSource acts)
  kept : s.board.Kept
  shown : s.board.Shown
  sampled : s.board.Sampled
  made : s.Made loads trafficSource acts
  noted : s.Noted loads acts
  counted : s.Counted loads acts

theorem Remembers.step (hs : s.Remembers loads trafficSource acts) (h : step loads s a = some s') :
    s'.Remembers loads trafficSource (acts ++ [a]) where
  keeps := by
    rw [Past.of_concat]
    exact hs.keeps.step h
  delivers := by
    rw [Past.of_concat]
    exact hs.delivers.step hs.keeps h
  kept := kept_step hs.kept h
  shown := shown_step hs.shown h
  sampled := sampled_step hs.sampled h
  made := made_step hs.made hs.keeps h
  noted := noted_step hs.noted h
  counted := counted_step hs.counted hs.noted h

end LiveDemo
end Ebaf
