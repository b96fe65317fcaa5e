import Ebaf.Dashboard
import Ebaf.EventJson
import Ebaf.EventReports

/-! # What the dashboard shows of a packet

A packet program submits an event, the loader prints it as a line of JSON, a
reader thread hands the line on, and `add_event` makes a packet of the dashboard
of what `json.loads` finds in it.  Along this way nothing is lost: the packet
shows the addresses, ports and lengths of the frame and the start of the body
right after the cipher call.
-/
namespace Ebaf
open CStrings ByteWindow EarlyExit

/-! ## The line on its way -/

section Line
variable {a b : UInt8} {s t : CString}

/-- White space is cut off behind the last letter. -/
theorem strip_enclosed (ha : ¬ pySpace a = true) (hb : ¬ pySpace b = true)
    (ht : ∀ c ∈ t, pySpace c = true) : strip (a :: (s ++ b :: t)) = a :: (s ++ [b]) := by
  have hreverse : (a :: (s ++ b :: t)).reverse = t.reverse ++ (a :: (s ++ [b])).reverse := by
    simp only [List.reverse_cons, List.reverse_append, List.append_assoc, List.nil_append,
      List.reverse_nil]
  have hlast : (a :: (s ++ [b])).reverse = b :: (s.reverse ++ [a]) := by
    simp only [List.reverse_cons, List.reverse_append, List.reverse_nil, List.nil_append,
      List.singleton_append]
    rfl
  rw [strip, lstrip, List.dropWhile_cons_of_neg ha, hreverse,
    List.dropWhile_append_of_pos fun c hc => ht c (List.mem_reverse.mp hc), hlast,
    List.dropWhile_cons_of_neg hb, ← hlast, List.reverse_reverse]

end Line

/-- A line of JSON stands between braces. -/
theorem exists_json (event : EbafCryptoEvent) : ∃ s, event.json = 123 :: (s ++ [125]) := by
  rw [json_eq_write]
  exact ⟨_, rfl⟩

/-- **Every reader gets the event of a line.** -/
theorem lineEvent_json (r : Reader) (event : EbafCryptoEvent) :
    lineEvent loadsEvent (r.handedOn (event.json ++ lit "\n")) = some event.tcEvent := by
  obtain ⟨s, hs⟩ := exists_json event
  have hline : event.json ++ lit "\n" = 123 :: (s ++ 125 :: lit "\n") := by
    rw [hs, List.cons_append, List.append_assoc]
    rfl
  have hhanded : r.handedOn (event.json ++ lit "\n") = event.json ++ lit "\n" := by
    have hfirst : (lstrip (event.json ++ lit "\n")).head? = some 123 := by
      rw [hline, lstrip, List.dropWhile_cons_of_neg (by decide)]
      rfl
    exact if_pos hfirst
  have hstrip : strip (event.json ++ lit "\n") = event.json := by
    rw [hline, hs]
    exact strip_enclosed (by decide) (by decide) (List.forall_mem_singleton.mpr rfl)
  have hbrace : event.json.head? = some 123 := by rw [hs, List.head?_cons]
  rw [hhanded, lineEvent, hstrip, loadsEvent_json, if_pos hbrace]
  rfl

/-! ## Hexadecimal text on the page -/

/-- The two digits of a byte. -/
def hexPair (b : UInt8) : CString := [hexDigit (b >>> 4).toNat, hexDigit (b &&& 0x0f).toNat]

/-- How a byte is shown as a character. -/
def shownByte (b : UInt8) : UInt8 := if 32 ≤ b.toNat ∧ b.toNat ≤ 126 then b else 46

theorem compact_hexText (bytes : List UInt8) : compact (hexText bytes) = hexText bytes := by
  have hdigit : ∀ d < 16, pySpace (hexDigit d) = false := by decide
  rw [compact, List.filter_eq_self]
  induction bytes with
  | nil => exact fun c hc => by cases hc
  | cons b bytes ih =>
    have hb := b.toNat_lt
    intro c hc
    rw [hexText, List.mem_cons, List.mem_cons] at hc
    rcases hc with rfl | rfl | hc
    · rw [hdigit _ (by rw [toNat_high]; omega)]
      rfl
    · rw [hdigit _ (by rw [toNat_low]; omega)]
      rfl
    · exact ih c hc

theorem digitPairs_hexText (bytes : List UInt8) : digitPairs (hexText bytes) = bytes.map hexPair := by
  induction bytes with
  | nil => rfl
  | cons b bytes ih => rw [hexText, digitPairs, ih, List.map_cons, hexPair]

/-- **The bytes as pairs of digits.** -/
theorem spacedHex_hexText {bytes : List UInt8} (h : bytes.length ≤ 96) :
    spacedHex (hexText bytes) = [32].intercalate (bytes.map hexPair) := by
  have hshort : (hexText bytes).length ≤ 192 := by
    rw [hexText_length]
    omega
  rw [spacedHex, compact_hexText, List.take_of_length_le hshort, digitPairs_hexText]

/-- The number two digits denote. -/
theorem parsePair_hexPair (b : UInt8) : parsePair (hexPair b) = some b.toNat := by
  have hb := b.toNat_lt
  have hsign : ∀ d < 16, ¬ (hexDigit d = 43 ∨ hexDigit d = 45) := by decide
  have hhigh : (b >>> 4).toNat < 16 := by
    rw [toNat_high]
    omega
  have hlow : (b &&& 0x0f).toNat < 16 := by
    rw [toNat_low]
    omega
  have hvalue : (b >>> 4).toNat * 16 + (b &&& 0x0f).toNat = b.toNat := by
    rw [toNat_high, toNat_low]
    omega
  rw [hexPair, parsePair, if_neg (hsign _ hhigh), hexValue_hexDigit _ hhigh,
    hexValue_hexDigit _ hlow, Option.bind_some, Option.map_some, hvalue]

/-- **The bytes as characters.** -/
theorem asciiFromHex_hexText (bytes : List UInt8) :
    asciiFromHex (hexText bytes) = bytes.map shownByte := by
  rw [asciiFromHex, compact_hexText, digitPairs_hexText]
  induction bytes with
  | nil => rfl
  | cons b bytes ih =>
    have hbyte : (if 32 ≤ b.toNat ∧ b.toNat ≤ 126 then UInt8.ofNat b.toNat else 46) =
        shownByte b := by
      rw [UInt8.ofNat_toNat, shownByte]
    rw [List.map_cons, List.map_cons, asciiOfPairs, parsePair_hexPair, ih]
    dsimp only
    rw [hbyte]

/-! ## The packet of an event -/

variable {Ctx : Type} {K : CryptoKernel Ctx} {e : Env Ctx} {s s' : PacketState Ctx}
  {config : EbafCryptoConfig}

/-- The events of a run name the configured action and algorithm. -/
def NamesConfig (e : Env Ctx) (ev : EbafCryptoEvent) : Prop :=
  ∃ config, e.config = some config ∧ ev.action = UInt8.ofNat config.action.toNat ∧
    ev.algo = UInt8.ofNat config.algo.toNat

theorem namesConfig_submitted (hconfig : e.config = some config) {ev : EbafCryptoEvent}
    {events : List EbafCryptoEvent} (hold : ∀ ev ∈ events, NamesConfig e ev)
    (haction : ev.action = UInt8.ofNat config.action.toNat)
    (halgo : ev.algo = UInt8.ofNat config.algo.toNat) :
    ∀ ev' ∈ events ++ submitted e ev, NamesConfig e ev' := by
  intro ev' hmem
  rcases List.mem_append.mp hmem with hmem | hmem
  · exact hold ev' hmem
  · rw [submitted] at hmem
    split at hmem
    · cases hmem
    · obtain rfl := List.mem_singleton.mp hmem
      exact ⟨config, hconfig, haction, halgo⟩

theorem PacketProgram.namesConfig (p : PacketProgram) (K : CryptoKernel Ctx) (e : Env Ctx)
    (hs : ∀ ev ∈ s.events, NamesConfig e ev) :
    ∀ ev ∈ ((p.run K e).exec s).events, NamesConfig e ev := by
  have refused : ∀ {t : PacketState Ctx}, s.Refused t → ∀ ev ∈ t.events, NamesConfig e ev := by
    rintro t ⟨d, -, rfl⟩
    exact hs
  cases p with
  | framed p =>
    have hend := p.spec K e s
    show ∀ ev ∈ ((p.run K e).exec s).events, NamesConfig e ev
    generalize (p.run K e).exec s = s' at hend
    cases hend with
    | refused _ h => exact refused h
    | failed config c d h _ hs' =>
      subst hs'
      exact hs
    | transformed config c d h _ hs' =>
      subst hs'
      exact namesConfig_submitted h.configured hs rfl rfl
  | transparent =>
    show ∀ ev ∈ ((tcTransparent K e).exec s).events, NamesConfig e ev
    by_cases ha : ∃ config, e.config = some config ∧ TransparentAccepts s.frame config
    · obtain ⟨config, hconfig, ha⟩ := ha
      rcases ha.action with henc | hdec
      · have hend := tcTransparent_encrypt_spec (K := K) (s := s) hconfig henc
        generalize (tcTransparent K e).exec s = s' at hend
        cases hend with
        | refused _ h => exact refused h
        | stranded _ _ _ h =>
          rw [h.events]
          exact hs
        | cipherFailed _ _ _ h =>
          subst h
          exact hs
        | ivLost _ _ _ _ _ _ hevents _ =>
          rw [hevents]
          exact hs
        | sealed _ _ _ _ h =>
          subst h
          exact namesConfig_submitted hconfig hs rfl rfl
      · have hend := tcTransparent_decrypt_spec (K := K) (s := s) hconfig hdec
        generalize (tcTransparent K e).exec s = s' at hend
        have deciphered : ∀ c, ∀ ev ∈ (deciphered K e config c s).events, NamesConfig e ev :=
          fun c => namesConfig_submitted hconfig hs rfl rfl
        cases hend with
        | refused _ h => exact refused h
        | cipherFailed _ _ _ h =>
          subst h
          exact hs
        | undone c _ _ _ h =>
          rw [h.events]
          exact deciphered c
        | opened c _ _ _ _ _ h =>
          subst h
          exact deciphered c
    · exact refused (tcTransparent_refuses fun config hc h => ha ⟨config, hc, h⟩)

/-- **What a packet of the dashboard shows** of the frame a program received and of the
cipher call it made: of the body right after the call the first `n` bytes. -/
structure Shows (K : CryptoKernel Ctx) (f : Frame) (config : EbafCryptoConfig)
    (call : CipherCall Ctx) (n : Nat) (packet : DemoPacket) : Prop where
  src : packet.src = dottedQuad (UInt32.ofNat (ipSaddr f))
  dst : packet.dst = dottedQuad (UInt32.ofNat (ipDaddr f))
  srcPort : packet.srcPort = be16 f (udpOff f)
  dstPort : packet.dstPort = udpDest f
  action : packet.action = actionName (UInt8.ofNat config.action.toNat)
  algo : packet.algo = algoName (UInt8.ofNat config.algo.toNat)
  payloadLen : packet.payloadLen = payloadLen f
  length : packet.length = call.body.length
  cipherHex : packet.cipherHex = [32].intercalate (((call.result K).take n).map hexPair)
  cipherAscii : packet.cipherAscii = ((call.result K).take n).map shownByte

/-- The packet made of an event that reports a call. -/
theorem shows_eventPacket {f : Frame} {call : CipherCall Ctx} {ev : EbafCryptoEvent}
    (h : Reports K f call ev) (haction : ev.action = UInt8.ofNat config.action.toNat)
    (halgo : ev.algo = UInt8.ofNat config.algo.toNat) (trafficSource time : CString) (seq : Nat)
    (metadata : Option Metadata) :
    Shows K f config call ev.sampleLen.toNat
      (eventPacket trafficSource time ev.tcEvent seq metadata) := by
  have hle : ev.sampleLen.toNat ≤ ebafEventSampleBytes := h.sampleFits.trans (Nat.min_le_left ..)
  have hsample : ev.sampleBytes = (call.result K).take ev.sampleLen.toNat :=
    (sampleBytes_of_le hle).trans h.sample
  have hshort : ((call.result K).take ev.sampleLen.toNat).length ≤ 96 := by
    rw [ebafEventSampleBytes] at hle
    rw [List.length_take]
    omega
  constructor
  · show dottedQuad ev.srcIp = _
    rw [← h.srcIp, UInt32.ofNat_toNat]
  · show dottedQuad ev.dstIp = _
    rw [← h.dstIp, UInt32.ofNat_toNat]
  · exact h.srcPort
  · exact h.dstPort
  · exact congrArg actionName haction
  · exact congrArg algoName halgo
  · exact h.payloadLen
  · exact h.dataLen
  · show spacedHex (hexText ev.sampleBytes) = _
    rw [hsample, spacedHex_hexText hshort]
  · show asciiFromHex (hexText ev.sampleBytes) = _
    rw [hsample, asciiFromHex_hexText]

end Ebaf
