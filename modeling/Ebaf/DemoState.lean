import Mathlib.Algebra.Order.Field.Rat
import Ebaf.HexText
import Ebaf.Printf

/-! # The state of the dashboard

`DemoState` of `demo_live_cipher.py`, section by section: each definition that
changes the state is what one `with self.lock` block does.  Texts are the bytes the
two processes print, which are ASCII.
-/
namespace Ebaf
open CStrings

/-! ## Text -/

/-- White space of `strip` and `split`. -/
def pySpace (b : UInt8) : Bool := (9 ≤ b && b ≤ 13) || (28 ≤ b && b ≤ 32)

def lstrip (s : CString) : CString := s.dropWhile pySpace

/-- `strip` -/
def strip (s : CString) : CString := ((lstrip s).reverse.dropWhile pySpace).reverse

/-- The words of a text, the word being read in front. -/
def splitWords : CString → CString → List CString
  | word, [] => if word = [] then [] else [word]
  | word, b :: s =>
    if pySpace b then if word = [] then splitWords [] s else word :: splitWords [] s
    else splitWords (word ++ [b]) s

/-- `"".join(text.split())` -/
def compact (s : CString) : CString := s.filter fun b => !pySpace b

/-- The digits two by two. -/
def digitPairs : CString → List CString
  | [] => []
  | [a] => [[a]]
  | a :: b :: s => [a, b] :: digitPairs s

/-- `spaced_hex` -/
def spacedHex (hexText : CString) : CString :=
  [32].intercalate (digitPairs ((compact hexText).take 192))

/-- `int(pair, 16)`; a sign leaves a number below 16. -/
def parsePair : CString → Option Nat
  | [a] => hexValue a
  | [a, b] =>
    if a = 43 ∨ a = 45 then hexValue b
    else (hexValue a).bind fun hi => (hexValue b).map fun lo => hi * 16 + lo
  | _ => none

/-- The loop of `ascii_from_hex` ends where a pair is no number. -/
def asciiOfPairs : List CString → CString
  | [] => []
  | pair :: pairs =>
    match parsePair pair with
    | none => []
    | some b => (if 32 ≤ b ∧ b ≤ 126 then UInt8.ofNat b else 46) :: asciiOfPairs pairs

/-- `ascii_from_hex` -/
def asciiFromHex (hexText : CString) : CString := asciiOfPairs (digitPairs (compact hexText))

/-! ## Events and packets -/

/-- The members of an event that `add_event` reads; any of them may be missing. -/
structure TcEvent where
  type : Option CString
  sample : Option CString
  src : Option CString
  dst : Option CString
  srcPort : Option Nat
  dstPort : Option Nat
  action : Option CString
  algo : Option CString
  dataLen : Option Nat
  payloadLen : Option Nat
  tsNs : Option Nat

/-- What the sender keeps of a datagram in `sent_by_seq`. -/
structure Metadata where
  app : CString
  method : CString
  path : CString
  traceId : CString
  summary : CString

/-- A packet of the dashboard. -/
structure DemoPacket where
  time : CString
  seq : Nat
  kind : CString
  src : CString
  dst : CString
  srcPort : Nat
  dstPort : Nat
  action : CString
  algo : CString
  plainAscii : CString
  plainHex : CString
  cipherHex : CString
  cipherAscii : CString
  length : Nat
  payloadLen : Nat
  tsNs : Nat
  state : CString
  app : CString
  method : CString
  path : CString
  traceId : CString

/-- A dictionary of counters. -/
abbrev StatsDict := CString → Option Nat

/-- The members of `DemoState` its methods read and write. -/
structure DemoState where
  stats : StatsDict
  lastStats : StatsDict
  lastStatsAt : Rat
  pps : Int
  cryptoOkRate : Int
  packets : List DemoPacket
  samples : List DemoPacket
  sentBySeq : List (Nat × Metadata)
  senderCount : Nat
  eventCount : Nat
  appLines : List CString
  trafficSource : CString

/-- `UDP_PORT` -/
def demoUdpPort : Nat := 7777

/-- `_fallback_summary` -/
def fallbackSummary (trafficSource : CString) (event : TcEvent) : CString :=
  printf (lit "%s UDP %s payload=%uB cipher_body=%uB")
    [if trafficSource = [] then lit "media" else trafficSource,
      event.action.getD (lit "encrypt"), decimal (event.payloadLen.getD 0),
      decimal (event.dataLen.getD 0)]

/-- The packet `add_event` makes of an event. -/
def eventPacket (trafficSource time : CString) (event : TcEvent) (seq : Nat)
    (metadata : Option Metadata) : DemoPacket where
  time := time
  seq := seq
  kind := lit "tc"
  src := event.src.getD (lit "10.66.0.1")
  dst := event.dst.getD (lit "10.66.0.2")
  srcPort := event.srcPort.getD 0
  dstPort := event.dstPort.getD demoUdpPort
  action := event.action.getD (lit "encrypt")
  algo := event.algo.getD (lit "cbc-aes")
  plainAscii := (metadata.map Metadata.summary).getD (fallbackSummary trafficSource event)
  plainHex := []
  cipherHex := spacedHex (event.sample.getD [])
  cipherAscii := asciiFromHex (event.sample.getD [])
  length := event.dataLen.getD 0
  payloadLen := event.payloadLen.getD 0
  tsNs := event.tsNs.getD 0
  state := lit "xdp_event"
  app := (metadata.map Metadata.app).getD []
  method := (metadata.map Metadata.method).getD []
  path := (metadata.map Metadata.path).getD []
  traceId := (metadata.map Metadata.traceId).getD []

/-! ## The sections -/

/-- Assignment to a dictionary, which keeps the order of its keys. -/
def dictSet {V : Type} (key : Nat) (value : V) : List (Nat × V) → List (Nat × V)
  | [] => [(key, value)]
  | entry :: entries =>
    if entry.1 = key then (key, value) :: entries else entry :: dictSet key value entries

namespace DemoState

/-- `__init__` -/
def init (started : Rat) (trafficSource : CString) : DemoState :=
  let stats : StatsDict := fun key =>
    if key ∈ [lit "seen", lit "passed", lit "crypto_ok", lit "crypto_fail", lit "malformed"] then
      some 0
    else none
  { stats := stats
    lastStats := stats
    lastStatsAt := started
    pps := 0
    cryptoOkRate := 0
    packets := []
    samples := []
    sentBySeq := []
    senderCount := 0
    eventCount := 0
    appLines := []
    trafficSource := trafficSource }

/-- The first section of `add_event`, and the packet made of what it has read. -/
def readEvent (demo : DemoState) (time : CString) (event : TcEvent) : DemoPacket :=
  eventPacket demo.trafficSource time event demo.eventCount (demo.sentBySeq.lookup demo.eventCount)

/-- The second section of `add_event`. -/
def countEvent (demo : DemoState) : DemoState :=
  { demo with eventCount := demo.eventCount + 1 }

/-- `add_packet` -/
def addPacket (demo : DemoState) (packet : DemoPacket) : DemoState :=
  { demo with
    packets := (packet :: demo.packets).take 80
    samples := if packet.cipherHex = [] then demo.samples else (packet :: demo.samples).take 8 }

/-- The section of `_send_loop`; beyond 512 entries the oldest 128 are dropped. -/
def recordSent (demo : DemoState) (seq : Nat) (metadata : Metadata) : DemoState :=
  let sent := dictSet seq metadata demo.sentBySeq
  { demo with
    senderCount := demo.senderCount + 1
    sentBySeq := if 512 < sent.length then sent.drop 128 else sent }

/-- The first section of `update_stats_from_line` for a line that is not an event. -/
def noteLine (demo : DemoState) (line : CString) : DemoState :=
  let lines := demo.appLines ++ [strip line]
  { demo with appLines := lines.drop (lines.length - 40) }

end DemoState

/-! ## Statistics lines -/

/-- `key=value` with digits behind the first equals sign. -/
def keyValue (word : CString) : Option (CString × Nat) :=
  let value := (word.dropWhile (· ≠ 61)).drop 1
  if 61 ∈ word ∧ value ≠ [] ∧ value.all fun b => IsDigit b then
    some (word.takeWhile (· ≠ 61), digitsValue value)
  else none

/-- `parts` of `update_stats_from_line`; of two values of a key the last one counts. -/
def lineParts (line : CString) : StatsDict :=
  (splitWords [] (strip line)).foldl
    (fun parts word =>
      match keyValue word with
      | some (key, value) => Function.update parts key (some value)
      | none => parts)
    fun _ => none

/-- `int` of a fraction drops what is behind the point. -/
def pyInt (q : Rat) : Int := q.num.tdiv q.den

/-- A counter, 0 if it is missing. -/
def StatsDict.count (stats : StatsDict) (key : CString) : Int := (stats key).getD 0

namespace DemoState

/-- The seconds since the last statistics line, at least a thousandth. -/
def elapsed (demo : DemoState) (now : Rat) : Rat := max (now - demo.lastStatsAt) (1 / 1000)

/-- The rate of a counter. -/
def rate (demo : DemoState) (parts : StatsDict) (now : Rat) (key : CString) : Int :=
  pyInt (((parts.count key - demo.lastStats.count key : Int) : Rat) / demo.elapsed now)

/-- The second section of `update_stats_from_line`, for a line with `seen`. -/
def updateStats (demo : DemoState) (line : CString) (now : Rat) : DemoState :=
  let parts := lineParts line
  if parts (lit "seen") = none then demo
  else
    let stats : StatsDict := fun key => (parts key).or (demo.stats key)
    { demo with
      pps := demo.rate parts now (lit "seen")
      cryptoOkRate := demo.rate parts now (lit "crypto_ok")
      stats := stats
      lastStats := stats
      lastStatsAt := now }

end DemoState

/-- A statistics line leaves the packets, the sender's records and the event counter
alone. -/
theorem DemoState.updateStats_frame (demo : DemoState) (line : CString) (now : Rat) :
    (demo.updateStats line now).packets = demo.packets ∧
      (demo.updateStats line now).sentBySeq = demo.sentBySeq ∧
      (demo.updateStats line now).eventCount = demo.eventCount := by
  simp only [updateStats]
  split <;> exact ⟨rfl, rfl, rfl⟩

/-- The event of a line, if `json.loads` finds one. -/
def lineEvent (loads : CString → Option TcEvent) (line : CString) : Option TcEvent :=
  if (strip line).head? = some 123 then
    (loads (strip line)).filter fun event => event.type = some (lit "packet")
  else none

end Ebaf
