import Ebaf.Selection
import Ebaf.DisplayFilter
import Ebaf.JsonText
import Ebaf.Runs

/-! # The packet table of the page

`app.js` keeps the packets of the last answer, the rows it has last rendered and which
of them is selected.  Every answer and most of what the user does renders the rows
anew, from the text that stands in the filter input then: a text that is typed counts
from the next rendering on, applied or not.
-/
namespace Ebaf
open CStrings JsonText TextScan Selection

/-! ## Packets -/

/-- A text of the answer. -/
def textOfBytes (s : CString) : Text := s.map fun b => Char.ofNat b.toNat

/-- A member that is a text. -/
def memberText (packet : Value) (name : CString) : Option Text :=
  match packet.member name with
  | some (.str s) => some (textOfBytes s)
  | _ => none

/-- A member that is a number. -/
def memberNumber (packet : Value) (name : CString) : Option Rat :=
  match packet.member name with
  | some (.int n) => some n
  | _ => none

/-- `packet.seq`; the dashboard's are integers. -/
def packetSeq (packet : Value) : Option Int :=
  match packet.member (lit "seq") with
  | some (.int n) => some n
  | _ => none

/-- A packet, as the display filter reads it. -/
def shownPacket (packet : Value) : ShownPacket Rat where
  src := memberText packet (lit "src")
  dst := memberText packet (lit "dst")
  srcPort := memberNumber packet (lit "src_port")
  dstPort := memberNumber packet (lit "dst_port")
  action := memberText packet (lit "action")
  algo := memberText packet (lit "algo")
  cipherHex := memberText packet (lit "cipher_hex")

/-- `text || default` -/
def orText (text : Option Text) (default : Text) : Text :=
  if text.getD [] = [] then default else text.getD []

/-- `number || default` -/
def orNumber (number : Option Rat) (default : Rat) : Rat :=
  if number.getD 0 = 0 then default else number.getD 0

/-- `shortInfo` -/
def shortInfo (js : Runtime Rat) (packet : Value) : Text :=
  let sample := (memberText packet (lit "cipher_hex")).getD []
  let sampleBytes : Rat := ((sample.filter fun c => !TextScan.isSpace c).length : Rat) / 2
  let srcPort := orNumber (memberNumber packet (lit "src_port")) 0
  let dstPort := orNumber (memberNumber packet (lit "dst_port")) 7777
  let payload := orNumber (memberNumber packet (lit "payload_len"))
    (orNumber (memberNumber packet (lit "length")) 0)
  "TC transparent UDP media ".toList ++ orText (memberText packet (lit "action")) "encrypt".toList ++
    ' ' :: orText (memberText packet (lit "algo")) "cbc-aes".toList ++
    " | ".toList ++ js.numberText srcPort ++ "->".toList ++ js.numberText dstPort ++
    " | payload=".toList ++ js.numberText payload ++ "B | cipher sample=".toList ++
    js.numberText sampleBytes ++ ['B']

/-- The filter lets the packet through. -/
def showsPacket (js : Runtime Rat) (filter : Text) (packet : Value) : Bool :=
  matchesFilter js (shownPacket packet) (shortInfo js packet) filter

/-! ## The page -/

/-- A row, with the number it shows. -/
structure Row where
  packet : Value
  no : Int

def Row.seq (row : Row) : Option Int := packetSeq row.packet

/-- The variables of the script, and the text in the filter input.  The cursor is
`selectedIndex` and `selectedSeq`, where a packet may be without a number. -/
structure Page where
  allPackets : List Value
  rows : List Row
  cursor : Cursor (Option Int)
  filterInput : Text
  autoRefresh : Bool

/-- What the user does to the table.  `Enter` and the button apply the text typed. -/
inductive UserAct where
  | typed (text : Text)
  | applyFilter
  | setFilter (value : Text)
  | click (idx : Nat)
  | prevPacket
  | nextPacket
  | reset
  | pause

namespace Page

/-- The page as it is loaded. -/
def init : Page where
  allPackets := []
  rows := []
  cursor := { index := 0, key := none }
  filterInput := "udp.port == 7777 && ebaf.crypto".toList
  autoRefresh := true

/-- `packetNumber` -/
def packetNumber (allPackets : List Value) (packet : Value) (idx : Nat) : Int :=
  match packetSeq packet with
  | some seq => seq + 1
  | none => allPackets.length - idx

/-- The rows of a filter. -/
def rowsOf (js : Runtime Rat) (filter : Text) (allPackets : List Value) : List Row :=
  ((allPackets.filter (showsPacket js filter)).take 160).mapIdx fun idx packet =>
    { packet := packet, no := packetNumber allPackets packet idx }

/-- `renderRows` -/
def renderRows (js : Runtime Rat) (p : Page) : Page :=
  let rows := rowsOf js p.filterInput p.allPackets
  { p with
    rows := rows
    cursor := p.cursor.keep Row.seq rows }

/-- The row whose details are shown. -/
def selected (p : Page) : Option Row := p.rows[p.cursor.index]?

/-- The row at a place becomes the selected one; a row without a number leaves none. -/
def moveTo (js : Runtime Rat) (p : Page) (index : Nat) : Page :=
  renderRows js { p with
    cursor := { index := index, key := (p.rows[index]?.bind Row.seq).map some } }

/-- `setFilter` -/
def setFilter (js : Runtime Rat) (p : Page) (value : Text) : Page :=
  renderRows js { p with filterInput := value, cursor := { index := 0, key := none } }

/-- What a click or a key does; a row can be clicked that is there. -/
def user (js : Runtime Rat) (p : Page) : UserAct → Option Page
  | .typed text => some { p with filterInput := text }
  | .applyFilter => some (p.setFilter js p.filterInput)
  | .setFilter value => some (p.setFilter js value)
  | .click idx => if idx < p.rows.length then some (p.moveTo js idx) else none
  | .prevPacket => some (p.moveTo js (p.cursor.index - 1))
  | .nextPacket => some (p.moveTo js (min (p.cursor.index + 1) (p.rows.length - 1)))
  | .reset => some (renderRows js { p with cursor := { index := 0, key := none } })
  | .pause => some { p with autoRefresh := !p.autoRefresh }

/-- `data.packets || []` -/
def packetsOf (data : Value) : List Value :=
  match data.member (lit "packets") with
  | some (.arr packets) => packets
  | _ => []

/-- What `refresh` does with the body of an answer; a text that is none leaves the
page alone. -/
def receive (js : Runtime Rat) (p : Page) (body : CString) : Page :=
  match parse body with
  | some data => renderRows js { p with allPackets := packetsOf data }
  | none => p

/-! ## What is rendered -/

variable {js : Runtime Rat} {p p' : Page} {filter : Text} {allPackets : List Value} {n : Int}

theorem map_packet_rowsOf (js : Runtime Rat) (filter : Text) (allPackets : List Value) :
    (rowsOf js filter allPackets).map Row.packet =
      (allPackets.filter (showsPacket js filter)).take 160 := by
  apply List.ext_getElem?
  intro i
  rw [rowsOf, List.getElem?_map, List.getElem?_mapIdx, Option.map_map]
  exact Option.map_id'

/-- The rows of a packet with a number show the number after it. -/
theorem no_of_seq {row : Row} (hrow : row ∈ rowsOf js filter allPackets) (hseq : row.seq = some n) :
    row.no = n + 1 := by
  obtain ⟨i, hi, rfl⟩ := List.mem_mapIdx.mp hrow
  simp only [Row.seq] at hseq
  simp only [packetNumber, hseq]

/-- A number is shown if a packet has it and passes the filter. -/
theorem exists_row_iff (h : allPackets.length ≤ 160) :
    (∃ row ∈ rowsOf js filter allPackets, row.seq = some n) ↔
      ∃ packet ∈ allPackets, showsPacket js filter packet = true ∧ packetSeq packet = some n := by
  have hall : (rowsOf js filter allPackets).map Row.packet =
      allPackets.filter (showsPacket js filter) := by
    rw [map_packet_rowsOf, List.take_of_length_le ((List.length_filter_le _ _).trans h)]
  constructor
  · rintro ⟨row, hrow, hseq⟩
    have hpacket : row.packet ∈ allPackets.filter (showsPacket js filter) := by
      rw [← hall]
      exact List.mem_map_of_mem hrow
    obtain ⟨hmem, hshows⟩ := List.mem_filter.mp hpacket
    exact ⟨row.packet, hmem, hshows, hseq⟩
  · rintro ⟨packet, hmem, hshows, hseq⟩
    have hpacket := List.mem_filter.mpr ⟨hmem, hshows⟩
    rw [← hall] at hpacket
    obtain ⟨row, hrow, rfl⟩ := List.mem_map.mp hpacket
    exact ⟨row, hrow, hseq⟩

/-- The text in the filter input, and the one the rows were last rendered from. -/
structure FilterTexts where
  typed : Text
  rendered : Text

/-- The texts after what the user does: only typing and pausing render nothing. -/
def FilterTexts.after (texts : FilterTexts) : UserAct → FilterTexts
  | .typed text => { texts with typed := text }
  | .pause => texts
  | .setFilter value => ⟨value, value⟩
  | .applyFilter | .click _ | .prevPacket | .nextPacket | .reset => ⟨texts.typed, texts.typed⟩

/-- The rows are those of the filter, and one of them is selected. -/
structure Rendered (js : Runtime Rat) (texts : FilterTexts) (p : Page) : Prop where
  input : p.filterInput = texts.typed
  rows : p.rows = rowsOf js texts.rendered p.allPackets
  on : p.cursor.On Row.seq p.rows

theorem rendered_init (js : Runtime Rat) : init.Rendered js ⟨init.filterInput, init.filterInput⟩ :=
  ⟨rfl, rfl, Or.inl rfl⟩

theorem rendered_renderRows (js : Runtime Rat) (p : Page) :
    (p.renderRows js).Rendered js ⟨p.filterInput, p.filterInput⟩ :=
  ⟨rfl, rfl, Cursor.on_keep ..⟩

/-- **Whatever the user does, a row of the same packets is selected.** -/
theorem Rendered.user {texts : FilterTexts} {u : UserAct} (h : p.Rendered js texts)
    (hu : p.user js u = some p') :
    p'.Rendered js (texts.after u) ∧ p'.allPackets = p.allPackets := by
  have hrender : ∀ q : Page, q.filterInput = p.filterInput →
      (q.renderRows js).Rendered js ⟨texts.typed, texts.typed⟩ := by
    intro q hq
    rw [← h.input, ← hq]
    exact rendered_renderRows js q
  cases u with
  | typed text =>
    obtain rfl := Option.some.inj hu
    exact ⟨⟨rfl, h.rows, h.on⟩, rfl⟩
  | pause =>
    obtain rfl := Option.some.inj hu
    exact ⟨⟨h.input, h.rows, h.on⟩, rfl⟩
  | setFilter value =>
    obtain rfl := Option.some.inj hu
    refine ⟨rendered_renderRows js { p with filterInput := value, cursor := _ }, rfl⟩
  | click idx =>
    simp only [Page.user] at hu
    split at hu
    · obtain rfl := Option.some.inj hu
      exact ⟨hrender _ rfl, rfl⟩
    · cases hu
  | applyFilter =>
    obtain rfl := Option.some.inj hu
    exact ⟨hrender _ rfl, rfl⟩
  | prevPacket =>
    obtain rfl := Option.some.inj hu
    exact ⟨hrender _ rfl, rfl⟩
  | nextPacket =>
    obtain rfl := Option.some.inj hu
    exact ⟨hrender _ rfl, rfl⟩
  | reset =>
    obtain rfl := Option.some.inj hu
    exact ⟨hrender _ rfl, rfl⟩

/-- **A number stays selected exactly if one of the packets received has it and passes
the filter.** -/
theorem selects_receive_iff {body : CString} {data : Value} (hbody : parse body = some data)
    (hlen : (packetsOf data).length ≤ 160) (hs : p.cursor.Selects Row.seq p.rows (some n)) :
    (p.receive js body).cursor.Selects Row.seq (p.receive js body).rows (some n) ↔
      ∃ packet ∈ packetsOf data, showsPacket js p.filterInput packet = true ∧
        packetSeq packet = some n := by
  rw [receive, hbody]
  exact (Cursor.selects_keep_iff hs.1).trans (exists_row_iff hlen)

/-- **Moving to a row selects it unless a row above has its number**, if the rows are
those of the text in the filter input. -/
theorem index_moveTo_iff {i : Nat} (hrows : p.rows = rowsOf js p.filterInput p.allPackets)
    (hnumbers : ∀ row ∈ p.rows, row.seq ≠ none) (hi : i < p.rows.length) :
    (p.moveTo js i).cursor.index = i ↔
      ∀ j (hj : j < i), (p.rows.get ⟨j, Nat.lt_trans hj hi⟩).seq ≠ p.rows[i].seq := by
  have hchosen : (p.rows[i]?.bind Row.seq).map some = p.rows[i]?.map Row.seq := by
    obtain ⟨seq, hseq⟩ := Option.ne_none_iff_exists'.mp (hnumbers _ (List.getElem_mem hi))
    rw [List.getElem?_eq_getElem hi, Option.bind_some, Option.map_some, hseq]
    rfl
  have hcursor : (p.moveTo js i).cursor = (Cursor.choose Row.seq p.rows i).keep Row.seq p.rows := by
    rw [moveTo, renderRows, hchosen]
    simp only [← hrows]
    rfl
  rw [hcursor]
  exact Cursor.index_keep_choose_iff hi

end Page
end Ebaf
