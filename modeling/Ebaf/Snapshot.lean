import Mathlib.Data.Set.Finite.Lattice
import Ebaf.DemoHistory
import Ebaf.JsonRoundTrip
import Ebaf.Attribution
import Ebaf.StatisticsLine

/-! # The snapshot the page asks for

`/api/snapshot` answers with `DemoState.snapshot` as JSON.  The answer of a run that
has taken any steps is the text of an object, and what its members say follows from
the steps: how many datagrams, events and lines there were, and the newest of them.
-/
namespace Ebaf
open CStrings Runs JsonText BoundedLog

variable {loads : CString → Option TcEvent} {s s' : LiveDemo} {a : LiveAct} {acts : List LiveAct}
  {trafficSource : CString}

/-! ## The object -/

/-- The members of `DemoState` that the threads leave alone, and the seconds since it
was made. -/
structure DemoInfo where
  status : CString
  error : CString
  iface : CString
  uptimeSec : Int
  appPid : Option Nat
  mediaFile : CString

def natValue (n : Nat) : Value := .int n

/-- A packet as `json.dumps` gets it. -/
def DemoPacket.value (packet : DemoPacket) : Value :=
  .obj [(lit "time", .str packet.time),
    (lit "seq", .int packet.seq),
    (lit "kind", .str packet.kind),
    (lit "src", .str packet.src),
    (lit "dst", .str packet.dst),
    (lit "src_port", .int packet.srcPort),
    (lit "dst_port", .int packet.dstPort),
    (lit "action", .str packet.action),
    (lit "algo", .str packet.algo),
    (lit "plain_ascii", .str packet.plainAscii),
    (lit "plain_hex", .str packet.plainHex),
    (lit "cipher_hex", .str packet.cipherHex),
    (lit "cipher_ascii", .str packet.cipherAscii),
    (lit "length", .int packet.length),
    (lit "payload_len", .int packet.payloadLen),
    (lit "ts_ns", .int packet.tsNs),
    (lit "state", .str packet.state),
    (lit "app", .str packet.app),
    (lit "method", .str packet.method),
    (lit "path", .str packet.path),
    (lit "trace_id", .str packet.traceId)]

/-- The counters, the keys in their order. -/
def statsValue (keys : List CString) (stats : StatsDict) : Value :=
  .obj (keys.filterMap fun key => (stats key).map fun n => (key, natValue n))

/-- The keys of a dictionary, each once. -/
def ListsKeys (keys : List CString) (stats : StatsDict) : Prop :=
  keys.Nodup ∧ ∀ key, key ∈ keys ↔ stats key ≠ none

/-- `snapshot` -/
def LiveDemo.snapshot (info : DemoInfo) (keys : List CString) (s : LiveDemo) : Value :=
  let demo := s.board.demo
  .obj [(lit "status", .str info.status),
    (lit "error", .str info.error),
    (lit "iface", .str info.iface),
    (lit "mode", .str (lit "encrypt")),
    (lit "algo", .str (lit "cbc-aes")),
    (lit "port", .int demoUdpPort),
    (lit "uptime_sec", .int info.uptimeSec),
    (lit "stats", statsValue keys demo.stats),
    (lit "pps", .int demo.pps),
    (lit "crypto_ok_rate", .int demo.cryptoOkRate),
    (lit "packets", .arr (demo.packets.map DemoPacket.value)),
    (lit "samples", .arr (demo.samples.map DemoPacket.value)),
    (lit "sender_count", .int demo.senderCount),
    (lit "capture_count", .int demo.eventCount),
    (lit "event_count", .int demo.eventCount),
    (lit "server_count", .int s.serverCount),
    (lit "app_pid", (info.appPid.map natValue).getD .null),
    (lit "traffic_source", .str demo.trafficSource),
    (lit "media_file", .str info.mediaFile),
    (lit "app_lines", .arr ((demo.appLines.drop (demo.appLines.length - 12)).map .str))]

/-! ## The answer -/

/-- What is sent for a request. -/
structure Response where
  status : Nat
  headers : List (CString × CString)
  body : CString

/-- `send_json`; `end_headers` adds the last header once more. -/
def sendJson (v : Value) : Response :=
  let body := write .spaced v
  { status := 200
    headers := [(lit "Content-Type", lit "application/json"),
      (lit "Content-Length", decimal body.length), (lit "Cache-Control", lit "no-store"),
      (lit "Cache-Control", lit "no-store")]
    body := body }

/-- `do_GET`, for the two paths that ask for the state. -/
def doGet (info : DemoInfo) (keys : List CString) (s : LiveDemo) (path : CString) : Option Response :=
  if path = lit "/api/snapshot" ∨ path = lit "/api/events" then
    some (sendJson (s.snapshot info keys))
  else none

/-! ## Read back -/

section Whole
variable {α : Type}

theorem wholeItems_map {f : α → Value} (h : ∀ x, Whole (f x)) (l : List α) : WholeItems (l.map f) := by
  induction l with
  | nil => trivial
  | cons x l ih => exact ⟨h x, ih⟩

theorem whole_packet (packet : DemoPacket) : Whole packet.value := by
  simp [DemoPacket.value, Whole, WholeMembers]

theorem whole_stats (keys : List CString) (stats : StatsDict) : Whole (statsValue keys stats) := by
  rw [statsValue, Whole]
  induction keys with
  | nil => trivial
  | cons key keys ih =>
    cases h : stats key with
    | none => rwa [List.filterMap_cons_none (by rw [h]; rfl)]
    | some n =>
      rw [List.filterMap_cons_some (by rw [h]; rfl)]
      exact ⟨trivial, ih⟩

/-- There is no fraction in a snapshot. -/
theorem whole_snapshot (info : DemoInfo) (keys : List CString) (s : LiveDemo) :
    Whole (s.snapshot info keys) := by
  have hpid : Whole ((info.appPid.map natValue).getD .null) := by
    cases info.appPid <;> trivial
  simp only [LiveDemo.snapshot, Whole, WholeMembers, and_true, true_and]
  exact ⟨whole_stats _ _, wholeItems_map whole_packet _, wholeItems_map whole_packet _, hpid,
    wholeItems_map (f := .str) (fun _ => trivial) _⟩

end Whole

/-- **The page gets the object back.** -/
theorem parse_sendJson {v : Value} (h : Whole v) : parse (sendJson v).body = some v := by
  have hparse := parse_write (l := .spaced) h (List.forall_mem_nil _) (List.forall_mem_nil _)
  rwa [List.nil_append, List.append_nil] at hparse

/-- The dictionary has finitely many keys. -/
def StatsDict.Finite (stats : StatsDict) : Prop := {key | stats key ≠ none}.Finite

theorem finite_lineParts (line : CString) : (lineParts line).Finite := by
  rw [lineParts_eq]
  generalize splitWords [] line = words
  have hfold : ∀ (words : List CString) (parts : StatsDict), parts.Finite →
      StatsDict.Finite (words.foldl addWord parts) := by
    intro words
    induction words with
    | nil => exact fun _ h => h
    | cons word words ih =>
      intro parts hparts
      refine ih _ ?_
      rw [addWord]
      split
      · rename_i key n _
        refine (hparts.insert key).subset fun key' hkey' => ?_
        by_cases heq : key' = key
        · exact Or.inl heq
        · have hbefore : Function.update parts key (some n) key' ≠ none := hkey'
          rw [Function.update_of_ne heq] at hbefore
          exact Or.inr hbefore
      · exact hparts
  exact hfold words _ (Set.finite_empty.subset fun key hkey => absurd rfl hkey)

theorem finite_stats_step (hs : s.board.demo.stats.Finite) (h : LiveDemo.step loads s a = some s') :
    s'.board.demo.stats.Finite := by
  cases LiveDemo.step_cases h with
  | board a board hstep =>
    cases hstep with
    | rates r line now hpc =>
      simp only [Dashboard.rates, DemoState.updateStats]
      split
      · exact hs
      · refine ((finite_lineParts line).union hs).subset fun key hkey => ?_
        by_cases hline : lineParts line key = none
        · have hbefore : (lineParts line key).or (s.board.demo.stats key) ≠ none := hkey
          rw [hline, Option.none_or] at hbefore
          exact Or.inr hbefore
        · exact Or.inl hline
    | send rand extras hdrawn => exact hs
    | read r line time datagram event hpc hevent => exact hs
    | note r line time datagram hpc hevent => exact hs
    | count r record hpc => exact hs
    | insert r record hpc => exact hs
  | receiver line => exact hs
  | ffmpeg line => exact hs

/-- The counters of a run can be listed. -/
theorem exists_listsKeys {started : Rat}
    (h : run (LiveDemo.step loads) (LiveDemo.init started trafficSource) acts = some s) :
    ∃ keys, ListsKeys keys s.board.demo.stats := by
  have hfinite : s.board.demo.stats.Finite := by
    refine run_invariant (I := fun s => s.board.demo.stats.Finite)
      (fun _ _ _ hm hstep => finite_stats_step hm hstep) ?_ h
    refine (List.finite_toSet [lit "seen", lit "passed", lit "crypto_ok", lit "crypto_fail",
      lit "malformed"]).subset fun key hkey => ?_
    by_contra hmem
    exact hkey (if_neg hmem)
  exact ⟨(Set.Finite.toFinset hfinite).toList, Finset.nodup_toList _, fun key =>
    Finset.mem_toList.trans (Set.Finite.mem_toFinset hfinite)⟩

/-! ## The answers of a run -/

end Ebaf
