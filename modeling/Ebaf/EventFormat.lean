import Ebaf.HexText
import Ebaf.Printf

/-! # Event lines

`ebaf_format_event_json` writes an event as one line of JSON, and the loader
prints it.  The line of an event is complete or refused, it always fits the
buffer of the loader, and it determines what the event says.
-/
namespace Ebaf
open CStrings

def ebafActionPass : UInt8 := 0

/-- `action_name` -/
def actionName (action : UInt8) : CString :=
  if action = ebafActionEncrypt.toUInt8 then lit "encrypt"
  else if action = ebafActionDecrypt.toUInt8 then lit "decrypt"
  else lit "pass"

/-- `algo_name` -/
def algoName (algo : UInt8) : CString :=
  if algo = ebafAlgoCbcAes.toUInt8 then lit "cbc-aes"
  else if algo = ebafAlgoChacha20.toUInt8 then lit "chacha20"
  else lit "unknown"

/-! ## Addresses -/

def inetAddrstrlen : Nat := 16

/-- The four bytes of an address. -/
def octets (addr : UInt32) : List Nat :=
  [addr.toNat / 16777216, addr.toNat / 65536 % 256, addr.toNat / 256 % 256, addr.toNat % 256]

/-- The bytes of an address in dotted decimal. -/
def dottedQuad (addr : UInt32) : CString := printf (lit "%u.%u.%u.%u") ((octets addr).map decimal)

/-- `inet_ntop(AF_INET, …)` writes only what fits. -/
def inetNtop (addr : UInt32) (size : Nat) : Option CString :=
  if size ≤ (dottedQuad addr).length then none else some (dottedQuad addr)

/-- The buffer of an address, which holds `"?"` before the call. -/
def addressText (addr : UInt32) : CString := (inetNtop addr inetAddrstrlen).getD (lit "?")

/-! ## The line -/

def eventFormat : CString :=
  lit "\x7b\"type\":\"packet\",\"ts_ns\":%llu,\"action\":\"%s\",\"algo\":\"%s\"," ++
  lit "\"src\":\"%s\",\"src_port\":%u,\"dst\":\"%s\",\"dst_port\":%u," ++
  lit "\"payload_len\":%u,\"data_len\":%u,\"sample\":\"%s\"\x7d"

def EbafCryptoEvent.args (event : EbafCryptoEvent) : List CString :=
  [decimal event.timestampNs.toNat, actionName event.action, algoName event.algo,
    addressText event.srcIp, decimal event.srcPort.toNat,
    addressText event.dstIp, decimal event.dstPort.toNat,
    decimal event.payloadLen.toNat, decimal event.dataLen.toNat, formatSampleHex event]

/-- The complete text of an event. -/
def EbafCryptoEvent.json (event : EbafCryptoEvent) : CString := printf eventFormat event.args

/-- `ebaf_format_event_json`: the result, and what the buffer holds. -/
def ebafFormatEventJson (event : EbafCryptoEvent) (out : CString) (outLen : Nat) : Int × CString :=
  if outLen = 0 then (-1, out)
  else
    let (written, out) := snprintf outLen event.json
    if outLen ≤ written then (-1, out) else (written, out)

/-! ## The loader -/

/-- `sizeof(struct ebaf_crypto_event)` -/
def EbafCryptoEvent.size : Nat := 64

/-- `struct ebaf_event_printer` -/
structure EbafEventPrinter where
  jsonl : Bool

/-- `line` of `handle_crypto_event` -/
def eventLineMax : Nat := 512

def eventTextFormat : CString :=
  lit "event ts=%llu action=%s algo=%s %s:%u -> %s:%u payload=%u data=%u sample="

/-- `handle_crypto_event`: what is printed for the event in `data`. -/
def handleCryptoEvent (printer : Option EbafEventPrinter) (event : EbafCryptoEvent)
    (dataSz : Nat) : CString :=
  if dataSz < EbafCryptoEvent.size then []
  else if (printer.map EbafEventPrinter.jsonl).getD false then
    let (written, line) := ebafFormatEventJson event [] eventLineMax
    if 0 < written then line ++ lit "\n" else []
  else
    printf eventTextFormat
      [decimal event.timestampNs.toNat, actionName event.action, algoName event.algo,
        addressText event.srcIp, decimal event.srcPort.toNat,
        addressText event.dstIp, decimal event.dstPort.toNat,
        decimal event.payloadLen.toNat, decimal event.dataLen.toNat] ++
    -- `%02x` for each byte of the sample
    (hexText event.sampleBytes ++ lit "\n")

/-! ## Its pieces -/

def eventTails : List CString :=
  [lit ",\"action\":\"", lit "\",\"algo\":\"", lit "\",\"src\":\"", lit "\",\"src_port\":",
    lit ",\"dst\":\"", lit "\",\"dst_port\":", lit ",\"payload_len\":", lit ",\"data_len\":",
    lit ",\"sample\":\"", lit "\"\x7d"]

theorem pieces_eventFormat :
    pieces false eventFormat = (lit "\x7b\"type\":\"packet\",\"ts_ns\":", eventTails) := by
  decide

theorem json_eq (event : EbafCryptoEvent) :
    event.json = lit "\x7b\"type\":\"packet\",\"ts_ns\":" ++ fill eventTails event.args := by
  rw [EbafCryptoEvent.json, printf, pieces_eventFormat]

theorem dottedQuad_eq (addr : UInt32) :
    dottedQuad addr = fill [[46], [46], [46], []] ((octets addr).map decimal) := by
  have hpieces : pieces false (lit "%u.%u.%u.%u") = ([], [[46], [46], [46], []]) := by decide
  rw [dottedQuad, printf, hpieces, List.nil_append]

/-- An address and the quote behind it: each byte ends at the next text. -/
theorem dottedQuad_quote (addr : UInt32) :
    dottedQuad addr ++ [34] = fill [[46], [46], [46], [34]] ((octets addr).map decimal) := by
  rw [dottedQuad_eq]
  simp only [octets, List.map_cons, List.map_nil, fill, List.append_assoc, List.append_nil]

/-! ## Lengths -/

variable {addr addr' : UInt32}

theorem octets_lt : ∀ o ∈ octets addr, o < 256 := by
  have haddr := addr.toNat_lt
  intro o ho
  simp only [octets, List.mem_cons, List.not_mem_nil, or_false] at ho
  rcases ho with rfl | rfl | rfl | rfl <;> omega

/-- At most fifteen bytes. -/
theorem dottedQuad_length (addr : UInt32) : (dottedQuad addr).length < inetAddrstrlen := by
  have hoctet : ∀ o ∈ octets addr, (decimal o).length ≤ 3 := fun o ho =>
    length_decimal_le (by decide) (Nat.lt_trans (octets_lt o ho) (by decide))
  have hcount : [[46], [46], [46], [34]].length = ((octets addr).map decimal).length := rfl
  have hlen := congrArg List.length (dottedQuad_quote addr)
  rw [length_fill hcount, List.length_append] at hlen
  simp only [octets, List.forall_mem_cons] at hoctet
  obtain ⟨h0, h1, h2, h3, -⟩ := hoctet
  simp only [octets, List.map_cons, List.map_nil, List.sum_cons, List.sum_nil, List.length_cons,
    List.length_nil] at hlen
  rw [inetAddrstrlen]
  omega

/-- **The buffer of an address is large enough.** -/
theorem addressText_eq (addr : UInt32) : addressText addr = dottedQuad addr := by
  rw [addressText, inetNtop, if_neg (Nat.not_le.mpr (dottedQuad_length addr))]
  rfl

/-- The names are short and have no quote. -/
theorem actionName_plain (action : UInt8) :
    (actionName action).length ≤ 7 ∧ 34 ∉ actionName action := by
  rw [actionName]
  split
  · decide
  split <;> decide

theorem algoName_plain (algo : UInt8) : (algoName algo).length ≤ 8 ∧ 34 ∉ algoName algo := by
  rw [algoName]
  split
  · decide
  split <;> decide

theorem length_decimal_uint16 (n : UInt16) : (decimal n.toNat).length ≤ 5 :=
  length_decimal_le (by decide) (Nat.lt_trans n.toNat_lt (by decide))

theorem length_decimal_uint64 (n : UInt64) : (decimal n.toNat).length ≤ 20 :=
  length_decimal_le (by decide) (Nat.lt_trans n.toNat_lt (by decide))

theorem length_formatSampleHex_le (event : EbafCryptoEvent) :
    (formatSampleHex event).length ≤ 64 := by
  have hmin : min event.sampleLen.toNat ebafEventSampleBytes ≤ 32 := Nat.min_le_right ..
  rw [formatSampleHex, hexText_length, event.sampleBytes_length]
  omega

/-- **Every event fits the buffer of the loader.** -/
theorem json_length_lt (event : EbafCryptoEvent) : event.json.length < eventLineMax := by
  have hts := length_decimal_uint64 event.timestampNs
  have haction := (actionName_plain event.action).1
  have halgo := (algoName_plain event.algo).1
  have hsrc := dottedQuad_length event.srcIp
  have hsport := length_decimal_uint16 event.srcPort
  have hdst := dottedQuad_length event.dstIp
  have hdport := length_decimal_uint16 event.dstPort
  have hpayload := length_decimal_uint16 event.payloadLen
  have hdata := length_decimal_uint16 event.dataLen
  have hsample := length_formatSampleHex_le event
  have hhead : (lit "\x7b\"type\":\"packet\",\"ts_ns\":").length = 25 := by decide
  have htails : (eventTails.map List.length).sum = 104 := by decide
  have hcount : eventTails.length = event.args.length := by
    simp only [eventTails, EbafCryptoEvent.args, List.length_cons, List.length_nil]
  rw [json_eq, List.length_append, length_fill hcount, hhead, htails, eventLineMax]
  simp only [EbafCryptoEvent.args, addressText_eq, List.map_cons, List.map_nil, List.sum_cons,
    List.sum_nil]
  rw [inetAddrstrlen] at hsrc hdst
  omega

/-! ## Completeness -/

/-- **A line is complete or refused.** -/
theorem ebafFormatEventJson_spec (event : EbafCryptoEvent) (out : CString) (outLen : Nat) :
    if event.json.length < outLen then
      ebafFormatEventJson event out outLen = ((event.json.length : Int), event.json)
    else (ebafFormatEventJson event out outLen).1 = -1 := by
  show if event.json.length < outLen then formatInto event.json out outLen = _
    else (formatInto event.json out outLen).1 = -1
  split
  · rename_i h
    exact formatInto_of_lt h out
  · rename_i h
    exact formatInto_of_le (Nat.not_lt.mp h) out

/-- **Every event is printed.** -/
theorem handleCryptoEvent_jsonl (event : EbafCryptoEvent) {dataSz : Nat}
    (hsize : EbafCryptoEvent.size ≤ dataSz) :
    handleCryptoEvent (some ⟨true⟩) event dataSz = event.json ++ lit "\n" := by
  have hspec := ebafFormatEventJson_spec event [] eventLineMax
  rw [if_pos (json_length_lt event)] at hspec
  have hpos : 0 < event.json.length := by
    rw [json_eq, List.length_append]
    exact Nat.add_pos_left (by decide) _
  have hjsonl : ((some ⟨true⟩ : Option EbafEventPrinter).map EbafEventPrinter.jsonl).getD false =
      true := rfl
  rw [handleCryptoEvent, if_neg (Nat.not_lt.mpr hsize), if_pos hjsonl, hspec]
  dsimp only
  rw [if_pos (Int.natCast_pos.mpr hpos)]

/-! ## What a line says -/

/-- Codes that have a name, and a sample that fits its array. -/
structure EbafCryptoEvent.Known (event : EbafCryptoEvent) : Prop where
  action : event.action ∈ [ebafActionPass, ebafActionEncrypt.toUInt8, ebafActionDecrypt.toUInt8]
  algo : event.algo ∈ [ebafAlgoCbcAes.toUInt8, ebafAlgoChacha20.toUInt8]
  sampleLen : event.sampleLen.toNat ≤ ebafEventSampleBytes

/-- What two events with the same line have in common. -/
structure EbafCryptoEvent.Agrees (e e' : EbafCryptoEvent) : Prop where
  timestampNs : e.timestampNs = e'.timestampNs
  srcIp : e.srcIp = e'.srcIp
  dstIp : e.dstIp = e'.dstIp
  srcPort : e.srcPort = e'.srcPort
  dstPort : e.dstPort = e'.dstPort
  payloadLen : e.payloadLen = e'.payloadLen
  dataLen : e.dataLen = e'.dataLen
  action : e.action = e'.action
  algo : e.algo = e'.algo
  sample : e.sample.1.take e.sampleLen.toNat = e'.sample.1.take e'.sampleLen.toNat

theorem octets_injective (h : octets addr = octets addr') : addr = addr' := by
  simp only [octets, List.cons.injEq, and_true] at h
  apply UInt32.toNat_inj.mp
  omega

theorem octets_endBefore (addr : UInt32) :
    List.Forall₂ EndsBefore [[46], [46], [46], [34]] ((octets addr).map decimal) := by
  have hdot : ∀ n, EndsBefore [46] (decimal n) := fun n =>
    ⟨46, rfl, not_mem_decimal (by decide) n⟩
  have hquote : ∀ n, EndsBefore [34] (decimal n) := fun n =>
    ⟨34, rfl, not_mem_decimal (by decide) n⟩
  exact .cons (hdot _) (.cons (hdot _) (.cons (hdot _) (.cons (hquote _) .nil)))

/-- **Dotted decimal determines the address.** -/
theorem dottedQuad_injective (h : dottedQuad addr = dottedQuad addr') : addr = addr' := by
  have hquote := dottedQuad_quote addr
  rw [h, dottedQuad_quote] at hquote
  have hoctets := fill_injective (octets_endBefore addr') (octets_endBefore addr) hquote
  exact (octets_injective (List.map_injective_iff.mpr decimal_injective hoctets)).symm

theorem not_mem_dottedQuad (addr : UInt32) : 34 ∉ dottedQuad addr := by
  have hdecimal : ∀ n, (34 : UInt8) ∉ decimal n := not_mem_decimal (by decide)
  rw [dottedQuad_eq]
  simp [octets, fill, hdecimal]

theorem not_mem_hexText (bytes : List UInt8) : 34 ∉ hexText bytes := by
  have hdigit : ∀ b : UInt8, 34 ≠ hexDigit b.toNat := by
    intro b
    by_cases h : b.toNat < 16
    · exact (show ∀ d < 16, 34 ≠ hexDigit d by decide) _ h
    · have hbehind : (lit "0123456789abcdef").length ≤ b.toNat := Nat.not_lt.mp h
      rw [hexDigit, List.getD_eq_getElem?_getD, List.getElem?_eq_none hbehind]
      decide
  induction bytes with
  | nil => exact List.not_mem_nil
  | cons b bytes ih =>
    rw [hexText, List.mem_cons, List.mem_cons]
    rintro (h | h | h)
    · exact hdigit _ h
    · exact hdigit _ h
    · exact ih h

/-- Every argument of the format ends at the text behind it: a number at a comma,
a string at a quote. -/
theorem args_endBefore (event : EbafCryptoEvent) :
    List.Forall₂ EndsBefore eventTails event.args := by
  have hnumber : ∀ n {tail}, tail.head? = some 44 → EndsBefore tail (decimal n) := fun n tail h =>
    ⟨44, h, not_mem_decimal (by decide) n⟩
  have hstring : ∀ {arg tail}, 34 ∉ arg → tail.head? = some 34 → EndsBefore tail arg :=
    fun harg h => ⟨34, h, harg⟩
  have haddress : ∀ addr, 34 ∉ addressText addr := fun addr => by
    rw [addressText_eq]
    exact not_mem_dottedQuad addr
  have haction := (actionName_plain event.action).2
  have halgo := (algoName_plain event.algo).2
  exact .cons (hnumber _ rfl) <| .cons (hstring haction rfl) <| .cons (hstring halgo rfl) <|
    .cons (hstring (haddress _) rfl) <| .cons (hnumber _ rfl) <|
    .cons (hstring (haddress _) rfl) <| .cons (hnumber _ rfl) <| .cons (hnumber _ rfl) <|
    .cons (hnumber _ rfl) <| .cons (hstring (not_mem_hexText _) rfl) .nil

/-- The known actions have different names. -/
theorem actionName_injective {a b : UInt8}
    (ha : a ∈ [ebafActionPass, ebafActionEncrypt.toUInt8, ebafActionDecrypt.toUInt8])
    (hb : b ∈ [ebafActionPass, ebafActionEncrypt.toUInt8, ebafActionDecrypt.toUInt8])
    (h : actionName a = actionName b) : a = b := by
  simp only [List.mem_cons, List.not_mem_nil, or_false] at ha hb
  rcases ha with rfl | rfl | rfl <;> rcases hb with rfl | rfl | rfl <;>
    first | rfl | exact absurd h (by decide)

/-- The known algorithms have different names. -/
theorem algoName_injective {a b : UInt8}
    (ha : a ∈ [ebafAlgoCbcAes.toUInt8, ebafAlgoChacha20.toUInt8])
    (hb : b ∈ [ebafAlgoCbcAes.toUInt8, ebafAlgoChacha20.toUInt8])
    (h : algoName a = algoName b) : a = b := by
  simp only [List.mem_cons, List.not_mem_nil, or_false] at ha hb
  rcases ha with rfl | rfl <;> rcases hb with rfl | rfl <;>
    first | rfl | exact absurd h (by decide)

theorem sampleBytes_of_le {event : EbafCryptoEvent}
    (h : event.sampleLen.toNat ≤ ebafEventSampleBytes) :
    event.sampleBytes = event.sample.1.take event.sampleLen.toNat := by
  rw [EbafCryptoEvent.sampleBytes, Nat.min_eq_left h]

theorem hexText_injective : Function.Injective hexText := by
  intro bytes bytes' h
  have hread := hexBytes_hexText bytes
  rw [h, hexBytes_hexText] at hread
  exact (Option.some.inj hread).symm

/-- **The line of an event determines what it says.** -/
theorem json_injective {e e' : EbafCryptoEvent} (h : e.Known) (h' : e'.Known)
    (hjson : e.json = e'.json) : e.Agrees e' := by
  rw [json_eq, json_eq] at hjson
  have hargs := fill_injective (args_endBefore e) (args_endBefore e')
    (List.append_cancel_left hjson)
  simp only [EbafCryptoEvent.args, List.cons.injEq, addressText_eq, and_true] at hargs
  obtain ⟨hts, haction, halgo, hsrc, hsport, hdst, hdport, hpayload, hdata, hsample⟩ := hargs
  constructor
  · exact UInt64.toNat_inj.mp (decimal_injective hts)
  · exact dottedQuad_injective hsrc
  · exact dottedQuad_injective hdst
  · exact UInt16.toNat_inj.mp (decimal_injective hsport)
  · exact UInt16.toNat_inj.mp (decimal_injective hdport)
  · exact UInt16.toNat_inj.mp (decimal_injective hpayload)
  · exact UInt16.toNat_inj.mp (decimal_injective hdata)
  · exact actionName_injective h.action h'.action haction
  · exact algoName_injective h.algo h'.algo halgo
  · rw [← sampleBytes_of_le h.sampleLen, ← sampleBytes_of_le h'.sampleLen]
    exact hexText_injective hsample

/-- The result of a buffer that is large enough, and of no other. -/
theorem ebafFormatEventJson_nonneg_iff {event : EbafCryptoEvent} {out : CString} {outLen : Nat} :
    0 ≤ (ebafFormatEventJson event out outLen).1 ↔ event.json.length < outLen :=
  formatInto_nonneg_iff

/-- **Event lines are complete and unambiguous.**  A buffer receives the whole text
or the event is refused; the buffer of the loader is never too small, so each event
is printed; and events with known codes that give the same line agree. -/
theorem event_lines_complete_and_unambiguous :
    (∀ (event : EbafCryptoEvent) (out : CString) (outLen : Nat), 0 < outLen →
      (0 ≤ (ebafFormatEventJson event out outLen).1 ↔ event.json.length < outLen) ∧
      (0 ≤ (ebafFormatEventJson event out outLen).1 →
        ebafFormatEventJson event out outLen = ((event.json.length : Int), event.json))) ∧
    (∀ (event : EbafCryptoEvent) (out : CString),
      0 ≤ (ebafFormatEventJson event out eventLineMax).1) ∧
    (∀ (event : EbafCryptoEvent) (dataSz : Nat), EbafCryptoEvent.size ≤ dataSz →
      handleCryptoEvent (some ⟨true⟩) event dataSz = event.json ++ lit "\n") ∧
    ∀ (e e' : EbafCryptoEvent) (out out' : CString) (n n' : Nat), e.Known → e'.Known →
      0 < n → 0 < n' → 0 ≤ (ebafFormatEventJson e out n).1 →
      0 ≤ (ebafFormatEventJson e' out' n').1 →
      (ebafFormatEventJson e out n).2 = (ebafFormatEventJson e' out' n').2 → e.Agrees e' := by
  have hcomplete : ∀ (event : EbafCryptoEvent) (out : CString) (outLen : Nat),
      0 ≤ (ebafFormatEventJson event out outLen).1 →
      ebafFormatEventJson event out outLen = ((event.json.length : Int), event.json) := by
    intro event out outLen hnonneg
    have hspec := ebafFormatEventJson_spec event out outLen
    rwa [if_pos (ebafFormatEventJson_nonneg_iff.mp hnonneg)] at hspec
  refine ⟨?_, ?_, ?_, ?_⟩
  · intro event out outLen hn
    exact ⟨ebafFormatEventJson_nonneg_iff, hcomplete event out outLen⟩
  · intro event out
    exact ebafFormatEventJson_nonneg_iff.mpr (json_length_lt event)
  · intro event dataSz hsize
    exact handleCryptoEvent_jsonl event hsize
  · intro e e' out out' n n' h h' _ _ hr hr' hline
    rw [hcomplete e out n hr, hcomplete e' out' n' hr'] at hline
    exact json_injective h h' hline

end Ebaf
