import Ebaf.NumberScan
import Ebaf.Pipeline

/-! # What the experiment scripts read

The scripts keep the standard output of a run.  `analyze_experiment.py` counts the
packet events in it and takes the last value printed for a counter, `packet_proof.py`
collects the events.  From the output of `main` they get the events that were printed,
in their order, and the totals that were printed last.
-/
namespace Ebaf
open CStrings EarlyExit Runs JsonText NumberScan

/-! ## The scripts -/

/-- The line boundary that stands here, by its length: `\r\n`, one of the control
characters, or `U+0085`, `U+2028`, `U+2029` in UTF-8. -/
def lineEnd : CString → Option Nat
  | [] => none
  | b :: s =>
    if b = 13 then some (if s.head? = some 10 then 2 else 1)
    else if (10 ≤ b ∧ b ≤ 12) ∨ (28 ≤ b ∧ b ≤ 30) then some 1
    else if b = 0xC2 ∧ s.head? = some 0x85 then some 2
    else if b = 0xE2 ∧ (s.take 2 = [0x80, 0xA8] ∨ s.take 2 = [0x80, 0xA9]) then some 3
    else none

/-- `str.splitlines`, after as many bytes of the last boundary as are left and with the
start of the first line in front. -/
def splitLines : Nat → CString → CString → List CString
  | _, line, [] => if line = [] then [] else [line]
  | skip + 1, line, _ :: s => splitLines skip line s
  | 0, line, b :: s =>
    match lineEnd (b :: s) with
    | some n => line :: splitLines (n - 1) [] s
    | none => splitLines 0 (line ++ [b]) s

/-- `isinstance(event, dict) and event.get("type") == "packet"` -/
def isPacket (event : Value) : Bool := strMember event (lit "type") = some (lit "packet")

/-- `packet_events` -/
def packetEvents (stdout : CString) : List Value :=
  (splitLines 0 [] stdout).filterMap fun line => (parse line).filter isPacket

/-- `count_packet_events` -/
def countPacketEvents (stdout : CString) : Nat :=
  (splitLines 0 [] stdout).foldl
    (fun count line =>
      match parse line with
      | some event => if isPacket event then count + 1 else count
      | none => count)
    0

/-- `parse_last_counter` -/
def parseLastCounter (stdout key : CString) : Nat :=
  match (findAll (key ++ lit "=") 0 stdout).getLast? with
  | some digits => digitsValue digits
  | none => 0

/-- The two scripts agree on what a packet event is. -/
theorem countPacketEvents_eq (stdout : CString) :
    countPacketEvents stdout = (packetEvents stdout).length := by
  have hfold : ∀ (lines : List CString) (n : Nat),
      lines.foldl
        (fun count line =>
          match parse line with
          | some event => if isPacket event then count + 1 else count
          | none => count)
        n = n + (lines.filterMap fun line => (parse line).filter isPacket).length := by
    intro lines
    induction lines with
    | nil => exact fun n => rfl
    | cons line lines ih =>
      intro n
      rw [List.foldl_cons, ih, List.filterMap_cons]
      cases parse line with
      | none => rfl
      | some event =>
        by_cases h : isPacket event = true
        · simp only [h, Option.filter_some, if_true, List.length_cons]
          omega
        · simp only [h, Option.filter_some, Bool.false_eq_true, if_false]
  rw [countPacketEvents, hfold, Nat.zero_add, packetEvents]

/-! ## Lines of text -/

section Lines
variable {line body rest text s t : CString} {texts : List CString}

/-- No line ends inside a plain text. -/
theorem lineEnd_plain {b : UInt8} (hb : 32 ≤ b ∧ b < 127) (s : CString) : lineEnd (b :: s) = none := by
  have hne : ∀ c : UInt8, ¬ (32 ≤ c ∧ c < 127) → b ≠ c := by
    rintro c hc rfl
    exact hc hb
  have hlow : ∀ c : UInt8, c < 32 → ¬ b ≤ c := fun c hc h =>
    absurd (UInt8.lt_of_le_of_lt (UInt8.le_trans hb.1 h) hc) (by decide)
  rw [lineEnd, if_neg (hne 13 (by decide)), if_neg, if_neg fun h => hne 0xC2 (by decide) h.1,
    if_neg fun h => hne 0xE2 (by decide) h.1]
  rintro (h | h)
  · exact hlow 12 (by decide) h.2
  · exact hlow 30 (by decide) h.2

theorem splitLines_line (h : PlainText body) :
    splitLines 0 line (body ++ 10 :: rest) = (line ++ body) :: splitLines 0 [] rest := by
  induction body generalizing line with
  | nil =>
    rw [List.append_nil]
    rfl
  | cons b body ih =>
    obtain ⟨hb, hbody⟩ := List.forall_mem_cons.mp h
    rw [List.cons_append, splitLines, lineEnd_plain hb]
    dsimp only
    rw [ih hbody, List.append_assoc, List.singleton_append]

/-- **Lines of text are read one by one.** -/
theorem packetEvents_flatten (h : ∀ text ∈ texts, OneLine text) (rest : CString) :
    packetEvents (texts.flatten ++ rest) =
      texts.filterMap (fun text => (parse text.dropLast).filter isPacket) ++ packetEvents rest := by
  induction texts with
  | nil => rfl
  | cons text texts ih =>
    obtain ⟨body, rfl, hbody⟩ := h text List.mem_cons_self
    have hrest := ih fun t ht => h t (List.mem_cons_of_mem _ ht)
    rw [packetEvents] at hrest
    rw [packetEvents, List.flatten_cons, List.append_assoc, List.append_assoc, List.singleton_append,
      splitLines_line hbody, List.filterMap_cons, List.filterMap_cons, List.nil_append, hrest,
      List.dropLast_concat]
    cases (parse body).filter isPacket with
    | none => rfl
    | some event => rfl

/-- Matches lie within lines. -/
theorem findAll_flatten {key : CString} (hkey : 10 ∉ key) (h : ∀ text ∈ texts, OneLine text) :
    findAll key 0 texts.flatten = texts.flatMap fun text => findAll key 0 text := by
  have hsplit : ∀ s rest, findAll key 0 (s ++ 10 :: rest) = findAll key 0 s ++ findAll key 0 rest :=
    fun s rest => findAll_append hkey (by decide) s rest
  induction texts with
  | nil => rfl
  | cons text texts ih =>
    obtain ⟨body, rfl, -⟩ := h text List.mem_cons_self
    rw [List.flatten_cons, List.append_assoc, List.singleton_append, hsplit,
      ih fun t ht => h t (List.mem_cons_of_mem _ ht), List.flatMap_cons, hsplit body []]
    show _ = (findAll key 0 body ++ []) ++ _
    rw [List.append_nil]

end Lines

/-! ## What a process prints -/

section Printing
variable {cfg : EbafUserConfig} {outs : List Output}

/-! ### Counters -/

/-- Assignments printed one behind the other: the matches are those of each. -/
theorem findAll_fill {key name : CString} {entries : List (CString × Nat)} {n : Nat}
    (hspace : 32 ∉ key) (hline : 10 ∉ key) (hequals : 61 ∉ key) (hname : 61 ∉ name)
    (hnames : ∀ entry ∈ entries, 61 ∉ entry.1) :
    findAll (key ++ [61]) 0 ((name ++ [61]) ++
        fill (entries.map (fun entry => lit " " ++ (entry.1 ++ lit "=")) ++ [lit "\n"])
          (decimal n :: entries.map fun entry => decimal entry.2)) =
      ((name, n) :: entries).flatMap fun entry =>
        if key <:+ entry.1 then [decimal entry.2] else [] := by
  have hout : ∀ b : UInt8, b ≠ 61 → b ∉ key → b ∉ key ++ [61] := by
    intro b hb hkey h
    rcases List.mem_append.mp h with h | h
    · exact hkey h
    · exact hb (List.mem_singleton.mp h)
  -- no match reaches over the blank between two assignments
  induction entries generalizing name n with
  | nil =>
    show findAll (key ++ [61]) 0 ((name ++ [61]) ++ (decimal n ++ 10 :: [])) = _
    rw [← List.append_assoc, List.append_assoc name, List.singleton_append, ← assign,
      findAll_append (hout 10 (by decide) hline) (by decide), findAll_assign hequals hname,
      List.flatMap_cons]
    rfl
  | cons entry entries ih =>
    obtain ⟨hentry, hnames⟩ := List.forall_mem_cons.mp hnames
    show findAll (key ++ [61]) 0 ((name ++ [61]) ++ (decimal n ++ 32 :: ((entry.1 ++ [61]) ++
      fill (entries.map (fun entry => lit " " ++ (entry.1 ++ lit "=")) ++ [lit "\n"])
        (decimal entry.2 :: entries.map fun entry => decimal entry.2)))) = _
    rw [← List.append_assoc, List.append_assoc name, List.singleton_append, ← assign,
      findAll_append (hout 32 (by decide) hspace) (by decide), findAll_assign hequals hname,
      ih hentry hnames]
    rfl

theorem Counter.not_mem_key (c : Counter) : 32 ∉ c.key ∧ 10 ∉ c.key ∧ 61 ∉ c.key :=
  ⟨fun h => absurd (c.key_plain.1 32 h) (by decide), fun h => absurd (c.key_plain.1 10 h) (by decide),
    c.key_plain.2⟩

/-- No counter's name is the end of another one. -/
theorem Counter.key_suffix (c c' : Counter) : c.key <:+ c'.key ↔ c = c' := by
  cases c <;> cases c' <;> decide

/-- **A statistics line has one value for each counter.** -/
theorem findAll_statsLine (total : EbafCryptoStats) (c : Counter) :
    findAll (c.key ++ lit "=") 0 (statsLine total) = [decimal (total c).toNat] := by
  obtain ⟨hspace, hline, hequals⟩ := c.not_mem_key
  have hnames : ∀ entry ∈ (statsEntries total).tail, 61 ∉ entry.1 := by
    intro entry hentry
    obtain ⟨c', -, rfl⟩ := List.mem_map.mp (List.mem_of_mem_tail hentry)
    exact c'.not_mem_key.2.2
  have hvalues : statsLine total = (Counter.packetsSeen.key ++ [61]) ++ _ := statsLine_eq total
  have hone : ((statsEntries total).flatMap fun entry =>
      if c.key <:+ entry.1 then [decimal entry.2] else []) = [decimal (total c).toNat] := by
    rw [statsEntries, List.flatMap_map]
    simp only [Counter.key_suffix]
    cases c <;> rfl
  rw [hvalues]
  exact (findAll_fill hspace hline hequals Counter.packetsSeen.not_mem_key.2.2 hnames).trans hone

/-- A value of another name. -/
theorem Counter.findAll_other (c : Counter) {front name : CString} (hfront : 61 ∉ front)
    (hname : 61 ∉ name) (hother : ¬ c.key <:+ name) (rest : CString) :
    findAll (c.key ++ [61]) 0 (front ++ (32 :: (name ++ 61 :: rest))) =
      findAll (c.key ++ [61]) 0 rest := by
  obtain ⟨hspace, -, hequals⟩ := c.not_mem_key
  have hin : 61 ∉ front ++ 32 :: name := by
    rw [List.mem_append, List.mem_cons]
    rintro (h | h | h)
    · exact hfront h
    · exact absurd h (by decide)
    · exact hname h
  have hends : ¬ c.key <:+ front ++ 32 :: name := fun h => hother ((suffix_delimiter hspace).mp h)
  rw [← List.cons_append, ← List.append_assoc]
  exact findAll_equals hequals hin hends rest

/-- An event has no value of a counter, however it is printed. -/
theorem findAll_event (jsonl : Bool) (event : EbafCryptoEvent) (c : Counter) :
    findAll (c.key ++ lit "=") 0 (handleCryptoEvent (some ⟨jsonl⟩) event EbafCryptoEvent.size) = [] := by
  have hkey : (61 : UInt8) ∈ c.key ++ [61] := List.mem_append_right _ List.mem_cons_self
  have hword : ∀ arg ∈ event.args, 61 ∉ arg := fun arg harg h => (plainWord_args event arg harg 61 h).2.2 rfl
  show findAll (c.key ++ [61]) 0 _ = []
  cases jsonl with
  | true =>
    have hjson : 61 ∉ fill eventTails event.args := not_mem_fill (by decide) hword
    rw [handleCryptoEvent_jsonl event (Nat.le_refl _), json_eq]
    refine findAll_of_not_mem hkey fun h => ?_
    rcases List.mem_append.mp h with h | h
    · rcases List.mem_append.mp h with h | h
      · exact absurd h (by decide)
      · exact hjson h
    · exact absurd h (by decide)
  | false =>
    simp only [EbafCryptoEvent.args, List.forall_mem_cons] at hword
    obtain ⟨hts, haction, halgo, hsrc, hsport, hdst, hdport, hpayload, hdata, hsample, -⟩ := hword
    have hother : ∀ name ∈ [lit "ts", lit "action", lit "algo", lit "payload", lit "data", lit "sample"],
        ¬ c.key <:+ name := by
      cases c <;> decide
    simp only [List.forall_mem_cons] at hother
    obtain ⟨hother, hother₁, hother₂, hother₃, hother₄, hother₅, -⟩ := hother
    -- the addresses stand behind the algorithm, without names
    let addresses := addressText event.srcIp ++ (lit ":" ++ (decimal event.srcPort.toNat ++
      (lit " -> " ++ (addressText event.dstIp ++ (lit ":" ++ decimal event.dstPort.toNat)))))
    have haddresses : 61 ∉ algoName event.algo ++ 32 :: addresses := by
      simp only [addresses, List.mem_append, List.mem_cons, not_or]
      exact ⟨halgo, by decide, hsrc, by decide, hsport, by decide, hdst, by decide, hdport⟩
    have htext : lit "event ts=" ++ (fill eventTextTails event.args ++ [10]) =
        lit "event" ++ 32 :: (lit "ts" ++ 61 :: (decimal event.timestampNs.toNat ++
        32 :: (lit "action" ++ 61 :: (actionName event.action ++
        32 :: (lit "algo" ++ 61 :: ((algoName event.algo ++ 32 :: addresses) ++
        32 :: (lit "payload" ++ 61 :: (decimal event.payloadLen.toNat ++
        32 :: (lit "data" ++ 61 :: (decimal event.dataLen.toNat ++
        32 :: (lit "sample" ++ 61 :: (formatSampleHex event ++ [10])))))))))))) := by
      simp only [addresses, EbafCryptoEvent.args, eventTextTails, fill, List.append_assoc,
        List.cons_append, List.append_nil]
      rfl
    rw [handleCryptoEvent_text, htext, c.findAll_other (by decide) (by decide) hother,
      c.findAll_other hts (by decide) hother₁, c.findAll_other haction (by decide) hother₂,
      c.findAll_other haddresses (by decide) hother₃, c.findAll_other hpayload (by decide) hother₄,
      c.findAll_other hdata (by decide) hother₅]
    refine findAll_of_not_mem hkey fun h => ?_
    rcases List.mem_append.mp h with h | h
    · exact hsample h
    · exact absurd h (by decide)

/-! ### Events -/

theorem readNumber_letter {b : UInt8} (hminus : b ≠ 45) (hdigit : ¬ IsDigit b) (s : CString) :
    readNumber (b :: s) = none := by
  have hsign : ((b :: s).take 1).filter (fun c => decide (c = 45)) = [] := by
    simp [hminus]
  have hnone : takeInteger (b :: s) = ([], b :: s) := by
    have hzero : b ≠ 48 := by
      rintro rfl
      exact hdigit (by decide)
    rw [takeInteger, if_neg hzero, List.takeWhile_cons_of_neg (by simpa using hdigit),
      List.dropWhile_cons_of_neg (by simpa using hdigit)]
  simp only [readNumber, hsign, List.length_nil, List.drop_zero, hnone, if_true]

/-- A word that begins no keyword is no JSON. -/
theorem parse_letter {b : UInt8} {s : CString} (hb : 97 ≤ b ∧ b ≤ 122)
    (hkeyword : readKeyword (b :: s) = none) : parse (b :: s) = none := by
  have hne : ∀ c : UInt8, ¬ (97 ≤ c ∧ c ≤ 122) → b ≠ c := by
    rintro c hc rfl
    exact hc hb
  have hdigit : ¬ IsDigit b := fun h =>
    absurd (UInt8.le_trans hb.1 h.2) (by decide)
  have hread : readValue ((b :: s).length + 1) (b :: s) = none := by
    rw [readValue, if_neg (hne 34 (by decide)), if_neg (hne 123 (by decide)),
      if_neg (hne 91 (by decide)), hkeyword, readNumber_letter (hne 45 (by decide)) hdigit]
    rfl
  have hblank : isBlank b = false := by
    simp [isBlank, hne 32 (by decide), hne 9 (by decide), hne 10 (by decide), hne 13 (by decide)]
  rw [parse, skip_cons hblank, hread]
  rfl

theorem packetOf_statsLine (total : EbafCryptoStats) :
    (parse (statsLine total).dropLast).filter isPacket = none := by
  obtain ⟨body, hbody, -⟩ := oneLine_statsLine total
  have hhead : (statsLine total).head? = some 115 := by
    rw [statsLine_eq]
    rfl
  rw [hbody] at hhead
  rw [hbody, List.dropLast_concat]
  cases body with
  | nil => cases hhead
  | cons b body =>
    obtain rfl := Option.some.inj hhead
    rw [parse_letter (by decide) rfl]
    rfl

theorem packetOf_event (jsonl : Bool) (event : EbafCryptoEvent) :
    (parse (handleCryptoEvent (some ⟨jsonl⟩) event EbafCryptoEvent.size).dropLast).filter isPacket =
      if jsonl then some (.obj event.members) else none := by
  cases jsonl with
  | true =>
    have hline : event.json ++ lit "\n" = event.json ++ [10] := rfl
    rw [handleCryptoEvent_jsonl event (Nat.le_refl _), hline, List.dropLast_concat, parse_json]
    rfl
  | false =>
    rw [handleCryptoEvent_text, ← List.append_assoc, List.dropLast_concat]
    show (parse (101 :: _)).filter isPacket = none
    rw [parse_letter (by decide) rfl]
    rfl

/-! ### The whole output -/

/-- The totals printed, whether their map was found, and the number of packets before them. -/
def printedTotals (outs : List Output) : List (EbafCryptoStats × Bool × Nat) :=
  outs.filterMap fun out =>
    match out.item with
    | .stats _ found total => some (total, found, out.crossings)
    | .event _ => none

/-- The totals printed last. -/
def lastTotals (outs : List Output) : Option (EbafCryptoStats × Bool × Nat) :=
  (printedTotals outs).getLast?

/-- The text on standard output. -/
def stdoutOf (cfg : EbafUserConfig) (outs : List Output) : CString :=
  (outs.map fun out => out.item.text cfg).flatten

/-- **The last value of a counter is that of the totals printed last.** -/
theorem parseLastCounter_printed (cfg : EbafUserConfig) (outs : List Output) (c : Counter) :
    parseLastCounter (stdoutOf cfg outs) c.key =
      ((lastTotals outs).map fun t => (t.1 c).toNat).getD 0 := by
  have hkey : (10 : UInt8) ∉ c.key ++ lit "=" := by
    intro h
    rcases List.mem_append.mp h with h | h
    · exact c.not_mem_key.2.1 h
    · exact absurd h (by decide)
  have hall : findAll (c.key ++ lit "=") 0 (stdoutOf cfg outs) =
      (printedTotals outs).map fun t => decimal (t.1 c).toNat := by
    rw [stdoutOf, findAll_flatten hkey oneLine_printed]
    induction outs with
    | nil => rfl
    | cons out outs ih =>
      obtain ⟨item, n⟩ := out
      rw [List.map_cons, List.flatMap_cons, ih]
      cases item with
      | stats now found total =>
        rw [Printed.text, findAll_statsLine]
        rfl
      | event ev =>
        rw [Printed.text, findAll_event]
        rfl
  rw [parseLastCounter, hall, List.getLast?_map, ← lastTotals]
  cases lastTotals outs with
  | none => rfl
  | some t => exact digitsValue_decimal _

/-- **The events collected are those printed, with what is printed behind them.** -/
theorem packetEvents_printed (cfg : EbafUserConfig) (outs : List Output) (rest : CString) :
    packetEvents (stdoutOf cfg outs ++ rest) =
      (if cfg.outputJsonl then (printedEvents outs).map fun ev => .obj ev.members else []) ++
        packetEvents rest := by
  rw [stdoutOf, packetEvents_flatten oneLine_printed]
  congr 1
  induction outs with
  | nil =>
    split <;> rfl
  | cons out outs ih =>
    obtain ⟨item, n⟩ := out
    rw [List.map_cons, List.filterMap_cons, ih]
    cases item with
    | stats now found total =>
      rw [Printed.text, packetOf_statsLine]
      rfl
    | event ev =>
      rw [Printed.text, packetOf_event]
      cases cfg.outputJsonl <;> rfl

end Printing

/-! ## A run -/

/-- **What the scripts read of a run.** -/
structure LogRead {Ctx : Type} {cpus : Nat} (K : CryptoKernel Ctx) (cfg : EbafUserConfig)
    (acts : List (MainAct Ctx cpus)) (s : MainState Ctx cpus) (stdout : CString) : Prop where
  /-- The events are those printed, in their order, if they are printed as JSON. -/
  events : packetEvents stdout =
    if cfg.outputJsonl then (printedEvents s.printed).map fun ev => .obj ev.members else []
  /-- None is counted that no transformed packet has caused. -/
  countLe : countPacketEvents stdout ≤ s.crossed.countP fun x => x.counted K
  /-- Once all are polled each transformed packet is counted. -/
  countEq : cfg.outputJsonl = true → (∀ x ∈ s.crossed, x.env.fails .ringbufReserve = false) →
    s.ring = [] → countPacketEvents stdout = s.crossed.countP fun x => x.counted K
  /-- The counters are those of the last statistics. -/
  counters : ∀ c : Counter, parseLastCounter stdout c.key =
    ((lastTotals s.printed).map fun t => (t.1 c).toNat).getD 0
  /-- The statistics tell of the packets before them, if the map was found. -/
  totals : ∀ total found n, lastTotals s.printed = some (total, found, n) →
    n ≤ s.crossed.length ∧ Says K (s.crossed.take n) found total
  /-- They were printed at turns of the loop, and found as these say. -/
  turned : (printedTurns s.printed).Sublist (MainState.turns acts)

/-- There are at most as many events as transformed packets. -/
theorem Crossing.length_events_le {Ctx : Type} (K : CryptoKernel Ctx) (xs : List (Crossing Ctx)) :
    (Crossing.events K xs).length ≤ xs.countP fun x => x.counted K := by
  induction xs with
  | nil => exact Nat.le_refl 0
  | cons x xs ih =>
    show ((x.result K).events ++ Crossing.events K xs).length ≤ _
    rw [List.length_append, List.countP_cons]
    rcases Crossing.events_result K x with
      ⟨hcounted, call, ev, -, -, -, hevents⟩ | ⟨hcounted, hevents⟩
    · have hone : (submitted x.env ev).length ≤ 1 := by
        rw [submitted]
        split
        · exact Nat.zero_le 1
        · exact Nat.le_refl 1
      rw [hevents, if_pos hcounted]
      omega
    · rw [hevents, List.length_nil]
      omega

theorem MainState.Accounts.logRead {Ctx : Type} {cpus : Nat} {K : CryptoKernel Ctx}
    {acts : List (MainAct Ctx cpus)} {s : MainState Ctx cpus} (h : s.Accounts K)
    (hturned : (printedTurns s.printed).Sublist (turns acts)) (cfg : EbafUserConfig) :
    LogRead K cfg acts s (stdoutOf cfg s.printed) := by
  have hevents := packetEvents_printed cfg s.printed []
  rw [List.append_nil] at hevents
  have hread : packetEvents (stdoutOf cfg s.printed) = if cfg.outputJsonl then
      (printedEvents s.printed).map fun ev => .obj ev.members else [] :=
    hevents.trans (List.append_nil _)
  have hlength := congrArg List.length h.events
  rw [List.length_append] at hlength
  refine ⟨hread, ?_, ?_, parseLastCounter_printed cfg s.printed, ?_, hturned⟩
  · have hle := Crossing.length_events_le K s.crossed
    rw [countPacketEvents_eq, hread]
    split
    · rw [List.length_map]
      omega
    · exact Nat.zero_le _
  · -- nothing is left in the ring buffer, so all events are printed
    intro hjson hroom hring
    rw [countPacketEvents_eq, hread, if_pos hjson, List.length_map,
      ← Crossing.length_events hroom, ← hlength, hring]
    rfl
  · intro total found n hlast
    obtain ⟨out, hout, hitem⟩ := List.mem_filterMap.mp (List.mem_of_getLast? hlast)
    cases hprinted : out.item with
    | event ev =>
      rw [hprinted] at hitem
      cases hitem
    | stats now found' total' =>
      rw [hprinted] at hitem
      obtain ⟨rfl, hrest⟩ := Prod.mk.inj (Option.some.inj hitem)
      obtain ⟨rfl, rfl⟩ := Prod.mk.inj hrest
      exact ⟨h.within out hout, h.said out hout now _ _ hprinted⟩

/-- The scripts can read the output of every run. -/
theorem logRead_run {Other Ctx : Type} {K : CryptoKernel Ctx} {k : LoaderKernel Other Ctx}
    {cfg : EbafUserConfig} {cpus : Nat} {startTime : Int} {acts : List (MainAct Ctx cpus)}
    {s : MainState Ctx cpus}
    (hrun : run (MainState.step K k cfg) (.init startTime) acts = some s) :
    LogRead K cfg acts s (stdoutOf cfg s.printed) := by
  have haccounts : s.Accounts K := run_invariant (I := fun s => s.Accounts K)
    (fun _ _ _ hm hstep => hm.step hstep) (MainState.accounts_init K startTime) hrun
  have hinit : (printedTurns (MainState.init startTime : MainState Ctx cpus).printed).Sublist
      (MainState.turns ([] : List (MainAct Ctx cpus))) := List.Sublist.slnil
  have hturned : (printedTurns s.printed).Sublist (MainState.turns acts) :=
    run_history (J := fun acts s => (printedTurns s.printed).Sublist (MainState.turns acts))
      (fun _ _ _ _ hm hstep => MainState.printedTurns_step hm hstep) hinit hrun
  exact haccounts.logRead hturned cfg

/-- **From the loop of `main` to the scripts.**  Whatever programs are attached, and however
packets, signals and the turns of the loop fall, the scripts read of the output so far: the
events printed as JSON, in order and each once, never more than transformed packets, and as
many once all are polled, if the ring buffer had room; and for every counter the value of the
statistics printed last, which count the packets before them, if the map was found then. -/
theorem scripts_read_run {Other Ctx : Type} (K : CryptoKernel Ctx) (k : LoaderKernel Other Ctx)
    (cfg : EbafUserConfig) (cpus : Nat) (startTime : Int) (acts : List (MainAct Ctx cpus))
    (s : MainState Ctx cpus)
    (hrun : run (MainState.step K k cfg) (.init startTime) acts = some s) :
    LogRead K cfg acts s (stdoutOf cfg s.printed) :=
  logRead_run hrun

theorem lastTotals_blockEnd : lastTotals blockEnd.printed = some (blockTotal, true, 1) := by
  rw [printed_blockEnd]
  rfl

theorem scripts_read_run_of_block :
    run (MainState.step (knownKernel _) blockStart.kernel jsonlConfig) (.init 100) blockActs =
      some blockEnd ∧
    parseLastCounter (stdoutOf jsonlConfig blockEnd.printed) (lit "crypto_ok") = 1 ∧
    countPacketEvents (stdoutOf jsonlConfig blockEnd.printed) = 1 ∧
    LogRead (knownKernel _) jsonlConfig blockActs blockEnd (stdoutOf jsonlConfig blockEnd.printed) := by
  have hread := scripts_read_run (knownKernel _) blockStart.kernel jsonlConfig 1 100 blockActs
    blockEnd run_blockActs
  have hroom : ∀ x ∈ blockEnd.crossed, x.env.fails .ringbufReserve = false :=
    List.forall_mem_singleton.mpr rfl
  have hcounter : parseLastCounter (stdoutOf jsonlConfig blockEnd.printed) (lit "crypto_ok") = _ :=
    hread.counters .packetsCryptoOk
  refine ⟨run_blockActs, ?_, ?_, hread⟩
  · rw [hcounter, lastTotals_blockEnd]
    show (blockTotal .packetsCryptoOk).toNat = 1
    rw [tells_blockTotal.2, List.countP_singleton, counted_blockCrossing]
    rfl
  · rw [hread.countEq rfl hroom ring_blockEnd]
    show [blockCrossing].countP (fun x => x.counted (knownKernel _)) = 1
    rw [List.countP_singleton, counted_blockCrossing]
    rfl

end Ebaf
