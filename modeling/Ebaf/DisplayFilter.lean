import Ebaf.TextScan

/-! # Display filters

`matchesFilter` of `filters.js` has no parser.  It takes the first comparison of
each field from the filter text, then blanks all tokens it knows, the numbers and
the operators, and looks for what is left in the text of the packet.  So `&&` and
`||` mean the same, and the words of `action` and `algo` are looked for twice.
-/
namespace Ebaf
open TextScan

/-! ## The script -/

/-- What the script uses of its runtime: `toLowerCase`, which maps letters one by one
on ASCII text, `Number`, and the text of a number. -/
structure Runtime (Num : Type) where
  toLowerCase : Text → Text
  lower_ascii : ∀ s : Text, (∀ c ∈ s, c.toNat < 128) → toLowerCase s = s.map Char.toLower
  number : Text → Num
  numberText : Num → Text

/-- A packet of the dashboard; fields may be missing. -/
structure ShownPacket (Num : Type) where
  src : Option Text
  dst : Option Text
  srcPort : Option Num
  dstPort : Option Num
  action : Option Text
  algo : Option Text
  cipherHex : Option Text

variable {Num : Type} [DecidableEq Num] (js : Runtime Num) (packet : ShownPacket Num)
  (infoText : Text)

/-- `packetText`; a missing field is empty. -/
def packetText : Text :=
  js.toLowerCase <| [' '].intercalate
    [packet.src.getD [], packet.dst.getD [],
      (packet.srcPort.map js.numberText).getD [], (packet.dstPort.map js.numberText).getD [],
      packet.action.getD [], packet.algo.getD [], packet.cipherHex.getD [], infoText]

/-- The fields that can be compared. -/
inductive FilterField where
  | port | src | dst | action | algo
  deriving DecidableEq

namespace FilterField

def key : FilterField → Text
  | port => "udp.port".toList
  | src => "ip.src".toList
  | dst => "ip.dst".toList
  | action => "action".toList
  | algo => "algo".toList

/-- `\d`, `[0-9.]` and `[a-z0-9_-]` -/
def isValue : FilterField → Char → Bool
  | port, c => c.isDigit
  | src, c | dst, c => c.isDigit || c == '.'
  | action, c | algo, c => ('a' ≤ c && c ≤ 'z') || c.isDigit || c == '_' || c == '-'

/-- A word may stand between quotes. -/
def quoted : FilterField → Bool
  | port | src | dst => false
  | action | algo => true

/-- The regular expression of a field. -/
def regex (field : FilterField) : Assignment where
  key := field.key
  isValue := field.isValue
  quoted := field.quoted
  key_ne_nil := by cases field <;> decide
  key_isWord := by cases field <;> decide

/-- The test of a field. -/
def agrees (field : FilterField) (value : Text) : Bool :=
  match field with
  | port => packet.srcPort = some (js.number value) ∨ packet.dstPort = some (js.number value)
  | src => packet.src = some value
  | dst => packet.dst = some value
  | action => js.toLowerCase (packet.action.getD []) = value
  | algo => js.toLowerCase (packet.algo.getD []) = value

end FilterField

/-- `packet.cipher_hex || packet.algo` -/
def ShownPacket.HasCrypto (packet : ShownPacket Num) : Prop :=
  packet.cipherHex.getD [] ≠ [] ∨ packet.algo.getD [] ≠ []

instance : Decidable packet.HasCrypto := inferInstanceAs (Decidable (_ ∨ _))

/-- `known` -/
def knownTokens : List Text :=
  ["udp.port".toList, "ebaf.crypto".toList, "ip.src".toList, "ip.dst".toList, "action".toList,
    "algo".toList, "&&".toList, "||".toList, "==".toList, "\"".toList, "(".toList, ")".toList]

/-- The filter with the known tokens and the numbers blanked. -/
def blanked (f : Text) : Text :=
  blankRuns (fun c => c.isDigit || c == '.') false (blankTokens knownTokens 0 f)

/-- `matchesFilter` -/
def matchesFilter (filter : Text) : Bool :=
  let f := js.toLowerCase (trim filter)
  if f = [] ∨ f = "all".toList then true
  else if "ebaf.crypto".toList <:+: f ∧ ¬ packet.HasCrypto then false
  else if [FilterField.port, .src, .dst, .action, .algo].any fun field =>
      (field.regex.find f).any fun value => !field.agrees js packet value then false
  else
    let leftovers := trim (blanked f)
    if leftovers = [] then true else leftovers <:+: packetText js packet infoText

/-! ## Comparisons -/

/-- A value of a field. -/
abbrev FilterField.Value (field : FilterField) :=
  { v : Text // v ≠ [] ∧ ∀ c ∈ v, field.isValue c = true }

/-- The comparisons a filter is made of. -/
inductive Comparison where
  | test (field : FilterField) (value : field.Value)
  | crypto

namespace Comparison

/-- The comparison in lower case. -/
def text : Comparison → Text
  | test field value => field.key ++ ' ' :: '=' :: '=' :: ' ' :: value.1
  | crypto => "ebaf.crypto".toList

/-- The packet has what the comparison asks for. -/
def Holds : Comparison → Prop
  | test field value => field.agrees js packet value.1 = true
  | crypto => packet.HasCrypto

/-- What the script leaves of the comparison. -/
def words : Comparison → Text
  | test .action value | test .algo value => blanked value.1
  | test .port _ | test .src _ | test .dst _ | crypto => []

/-- The packet has what the comparison asks for, and its text has the words left. -/
def Reads (c : Comparison) : Prop :=
  c.Holds js packet ∧ (trim c.words = [] ∨ trim c.words <:+: packetText js packet infoText)

/-- The value the comparison gives a field. -/
def valueOf (field : FilterField) : Comparison → Option Text
  | test field' value => if field' = field then some value.1 else none
  | crypto => none

end Comparison

/-- A comparison as it is written, in either case. -/
structure WrittenComparison where
  text : Text
  meaning : Comparison
  spelled : text.map Char.toLower = meaning.text

/-- Two comparisons with an operator between them. -/
def combine (op : Text) (a b : Text) : Text := a ++ ' ' :: (op ++ ' ' :: b)

end Ebaf
