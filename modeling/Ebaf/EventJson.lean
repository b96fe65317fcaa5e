import Ebaf.DemoState
import Ebaf.EventFormat
import Ebaf.JsonRoundTrip

/-! # Event lines as JSON

The line `ebaf_format_event_json` prints is the JSON text of an object, so that
`json.loads` gets back every field of the event.
-/
namespace Ebaf
open CStrings JsonText

/-! ## The object of an event -/

/-- The members of the object a line is the text of. -/
def EbafCryptoEvent.members (event : EbafCryptoEvent) : List (CString × Value) :=
  [(lit "type", .str (lit "packet")),
    (lit "ts_ns", .int event.timestampNs.toNat),
    (lit "action", .str (actionName event.action)),
    (lit "algo", .str (algoName event.algo)),
    (lit "src", .str (dottedQuad event.srcIp)),
    (lit "src_port", .int event.srcPort.toNat),
    (lit "dst", .str (dottedQuad event.dstIp)),
    (lit "dst_port", .int event.dstPort.toNat),
    (lit "payload_len", .int event.payloadLen.toNat),
    (lit "data_len", .int event.dataLen.toNat),
    (lit "sample", .str (formatSampleHex event))]

/-- A string that is written as it is. -/
def Unescaped (s : CString) : Prop := ∀ b ∈ s, escaped b = [b]

instance (s : CString) : Decidable (Unescaped s) := List.decidableBAll _ s

theorem quote_unescaped {s : CString} (h : Unescaped s) : quote s = 34 :: (s ++ [34]) := by
  rw [quote]
  congr 2
  induction s with
  | nil => rfl
  | cons b s ih =>
    rw [List.flatMap_cons, h b List.mem_cons_self, ih fun c hc => h c (List.mem_cons_of_mem _ hc)]
    rfl

theorem unescaped_decimal (n : Nat) : Unescaped (decimal n) := by
  intro b hb
  have hdigit := isDigit_decimal n b hb
  have hlo : 48 ≤ b.toNat := UInt8.le_iff_toNat_le.mp hdigit.1
  have hhi : b.toNat ≤ 57 := UInt8.le_iff_toNat_le.mp hdigit.2
  have hne : ∀ c : UInt8, ¬ (48 ≤ c.toNat ∧ c.toNat ≤ 57) → b ≠ c := by
    rintro c hc rfl
    exact hc ⟨hlo, hhi⟩
  have hlow : ¬ b < 32 := fun h => by
    have : b.toNat < 32 := UInt8.lt_iff_toNat_lt.mp h
    omega
  rw [escaped, if_neg (by simp [hne 34 (by decide), hne 92 (by decide)]),
    if_neg (hne 8 (by decide)), if_neg (hne 12 (by decide)), if_neg (hne 10 (by decide)),
    if_neg (hne 13 (by decide)), if_neg (hne 9 (by decide)),
    if_neg (by simp [hlow, hne 127 (by decide)])]

theorem Unescaped.append {s t : CString} (hs : Unescaped s) (ht : Unescaped t) : Unescaped (s ++ t) :=
  fun b hb => (List.mem_append.mp hb).elim (hs b) (ht b)

theorem unescaped_dottedQuad (addr : UInt32) : Unescaped (dottedQuad addr) := by
  have hdot : Unescaped [46] := by decide
  rw [dottedQuad_eq]
  exact (unescaped_decimal _).append (hdot.append ((unescaped_decimal _).append (hdot.append
    ((unescaped_decimal _).append (hdot.append ((unescaped_decimal _).append (by decide)))))))

theorem unescaped_hexText (bytes : List UInt8) : Unescaped (hexText bytes) := by
  have hdigit : ∀ d < 16, escaped (hexDigit d) = [hexDigit d] := by decide
  induction bytes with
  | nil => exact fun b hb => by cases hb
  | cons b bytes ih =>
    have hb := b.toNat_lt
    intro c hc
    rw [hexText, List.mem_cons, List.mem_cons] at hc
    rcases hc with rfl | rfl | hc
    · exact hdigit _ (by rw [toNat_high]; omega)
    · exact hdigit _ (by rw [toNat_low]; omega)
    · exact ih c hc

theorem unescaped_actionName (action : UInt8) : Unescaped (actionName action) := by
  rw [actionName]
  split
  · decide
  split <;> decide

theorem unescaped_algoName (algo : UInt8) : Unescaped (algoName algo) := by
  rw [algoName]
  split
  · decide
  split <;> decide

theorem writeInt_natCast (n : Nat) : writeInt n = decimal n := by
  rw [writeInt, if_neg (by omega)]
  rfl

/-- **A line is the text of its object.** -/
theorem json_eq_write (event : EbafCryptoEvent) :
    event.json = write .compact (.obj event.members) := by
  have hsample : Unescaped (formatSampleHex event) := unescaped_hexText _
  rw [json_eq]
  simp only [EbafCryptoEvent.args, eventTails, fill, EbafCryptoEvent.members, write, writeMembers,
    writeInt_natCast, quote_unescaped (unescaped_actionName _), quote_unescaped (unescaped_algoName _),
    quote_unescaped (unescaped_dottedQuad _), quote_unescaped hsample, addressText_eq, join,
    List.intercalate_cons_cons, List.intercalate_singleton, Layout.compact, List.append_assoc,
    List.cons_append, List.nil_append]
  rfl

/-! ## What `json.loads` makes of it -/

/-- `event.get(name)` for a string. -/
def strMember (v : Value) (name : CString) : Option CString :=
  match v.member name with
  | some (.str s) => some s
  | _ => none

/-- `event.get(name)` for a number that is not negative. -/
def natMember (v : Value) (name : CString) : Option Nat :=
  match v.member name with
  | some (.int n) => if 0 ≤ n then some n.toNat else none
  | _ => none

/-- The members of an object that `add_event` reads; other types than the ones a
process prints are not represented. -/
def TcEvent.ofObject (v : Value) : TcEvent where
  type := strMember v (lit "type")
  sample := strMember v (lit "sample")
  src := strMember v (lit "src")
  dst := strMember v (lit "dst")
  srcPort := natMember v (lit "src_port")
  dstPort := natMember v (lit "dst_port")
  action := strMember v (lit "action")
  algo := strMember v (lit "algo")
  dataLen := natMember v (lit "data_len")
  payloadLen := natMember v (lit "payload_len")
  tsNs := natMember v (lit "ts_ns")

/-- `json.loads`, for the events of the dashboard. -/
def loadsEvent (text : CString) : Option TcEvent := (parse text).map TcEvent.ofObject

/-- What the dashboard gets of an event. -/
def EbafCryptoEvent.tcEvent (event : EbafCryptoEvent) : TcEvent where
  type := some (lit "packet")
  sample := some (formatSampleHex event)
  src := some (dottedQuad event.srcIp)
  dst := some (dottedQuad event.dstIp)
  srcPort := some event.srcPort.toNat
  dstPort := some event.dstPort.toNat
  action := some (actionName event.action)
  algo := some (algoName event.algo)
  dataLen := some event.dataLen.toNat
  payloadLen := some event.payloadLen.toNat
  tsNs := some event.timestampNs.toNat

theorem ofObject_members (event : EbafCryptoEvent) :
    TcEvent.ofObject (.obj event.members) = event.tcEvent := by
  rfl

/-- A line denotes its object. -/
theorem parse_json (event : EbafCryptoEvent) : parse event.json = some (.obj event.members) := by
  have hwhole : Whole (.obj event.members) := by
    simp [Whole, WholeMembers, EbafCryptoEvent.members]
  have h : parse ([] ++ (write .compact (.obj event.members) ++ [])) = some (.obj event.members) :=
    parse_write hwhole (by simp) (by simp)
  rwa [List.nil_append, List.append_nil, ← json_eq_write] at h

/-- **`json.loads` gets back what the event says.** -/
theorem loadsEvent_json (event : EbafCryptoEvent) : loadsEvent event.json = some event.tcEvent := by
  rw [loadsEvent, parse_json, Option.map_some, ofObject_members]

end Ebaf
