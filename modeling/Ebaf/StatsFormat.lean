import Ebaf.EventJson
import Ebaf.StatisticsLine

/-! # Statistics as JSON

`ebaf_format_stats_json` writes five of the counters as one object of JSON.  A buffer takes
every text or it may refuse one, the text is never cut, and the counters are read back.
-/
namespace Ebaf
open CStrings JsonText

/-! ## The text -/

def statsFormat : CString :=
  lit "\x7b\"type\":\"stats\",\"seen\":%llu,\"passed\":%llu," ++
    lit "\"crypto_ok\":%llu,\"crypto_fail\":%llu,\"malformed\":%llu\x7d"

/-- The counters of the object; the reasons are left out. -/
def Counter.inJson : List Counter :=
  [.packetsSeen, .packetsPassed, .packetsCryptoOk, .packetsCryptoFail, .packetsMalformed]

namespace EbafCryptoStats
variable (stats stats' : EbafCryptoStats)

/-- The complete text. -/
def json : CString := printf statsFormat (Counter.inJson.map fun c => decimal (stats c).toNat)

/-- The members of the object it is the text of. -/
def members : List (CString × Value) :=
  (lit "type", .str (lit "stats")) ::
    Counter.inJson.map fun c => (c.key, .int (stats c).toNat)

def jsonTails : List CString :=
  [lit ",\"passed\":", lit ",\"crypto_ok\":", lit ",\"crypto_fail\":", lit ",\"malformed\":",
    lit "\x7d"]

theorem json_eq_fill : stats.json = lit "\x7b\"type\":\"stats\",\"seen\":" ++
    fill jsonTails (Counter.inJson.map fun c => decimal (stats c).toNat) := by
  have hpieces : pieces false statsFormat = (lit "\x7b\"type\":\"stats\",\"seen\":", jsonTails) := by
    decide
  rw [json, printf, hpieces]

/-- **It is the text of the object.** -/
theorem json_eq_write : stats.json = write .compact (.obj stats.members) := by
  rw [json_eq_fill]
  simp only [Counter.inJson, List.map_cons, List.map_nil, jsonTails, fill, members, write, writeMembers,
    writeInt_natCast, join, List.intercalate_cons_cons, List.intercalate_singleton, Layout.compact,
    List.append_assoc, List.cons_append, List.nil_append]
  rfl

/-- What is written is read. -/
theorem parse_json : parse stats.json = some (.obj stats.members) := by
  have hwhole : Whole (.obj stats.members) := by
    simp [Whole, WholeMembers, members, Counter.inJson]
  have h : parse ([] ++ (write .compact (.obj stats.members) ++ [])) = some (.obj stats.members) :=
    parse_write hwhole (List.forall_mem_nil _) (List.forall_mem_nil _)
  rwa [List.nil_append, List.append_nil, ← json_eq_write] at h

theorem length_json : stats.json.length =
    75 + (Counter.inJson.map fun c => (decimal (stats c).toNat).length).sum := by
  have hhead : (lit "\x7b\"type\":\"stats\",\"seen\":").length = 23 := by decide
  have htails : (jsonTails.map List.length).sum = 52 := by decide
  have hcount : jsonTails.length =
      (Counter.inJson.map fun c => decimal (stats c).toNat).length := by
    rw [List.length_map]
    rfl
  have hlengths : (Counter.inJson.map fun c => decimal (stats c).toNat).map List.length =
      Counter.inJson.map fun c => (decimal (stats c).toNat).length := List.map_map
  rw [json_eq_fill, List.length_append, length_fill hcount, hhead, htails, hlengths]
  omega

theorem length_json_le : stats.json.length ≤ 175 := by
  have hseen := length_decimal_uint64 (stats .packetsSeen)
  have hpassed := length_decimal_uint64 (stats .packetsPassed)
  have hok := length_decimal_uint64 (stats .packetsCryptoOk)
  have hfail := length_decimal_uint64 (stats .packetsCryptoFail)
  have hmalformed := length_decimal_uint64 (stats .packetsMalformed)
  rw [length_json]
  simp only [Counter.inJson, List.map_cons, List.map_nil, List.sum_cons, List.sum_nil]
  omega

/-- All counters are as large as they can be. -/
def full : EbafCryptoStats := fun _ => 18446744073709551615

theorem length_json_full : full.json.length = 175 := by
  rw [length_json]
  decide

variable {stats stats'}

/-- **The text determines the counters that are in it.** -/
theorem json_eq_iff : stats.json = stats'.json ↔ ∀ c ∈ Counter.inJson, stats c = stats' c := by
  constructor
  · intro h c hc
    have hobj := stats.parse_json
    rw [h, stats'.parse_json] at hobj
    have hmembers : stats'.members = stats.members := Value.obj.inj (Option.some.inj hobj)
    have hvalue := List.map_inj_left.mp (List.cons.inj hmembers).2 c hc
    have hnat := Int.ofNat.inj (Value.int.inj (Prod.mk.inj hvalue).2)
    exact (UInt64.toNat_inj.mp hnat).symm
  · intro h
    have hargs : (Counter.inJson.map fun c => decimal (stats c).toNat) =
        Counter.inJson.map fun c => decimal (stats' c).toNat := by
      refine List.map_congr_left fun c hc => ?_
      rw [h c hc]
    rw [json, json, hargs]

end EbafCryptoStats

/-! ## The function -/

/-- `ebaf_format_stats_json`: the result, and what the buffer holds. -/
def ebafFormatStatsJson (stats : EbafCryptoStats) (out : CString) (outLen : Nat) : Int × CString :=
  formatInto stats.json out outLen

/-- **Statistics are written whole and read back.**  A buffer receives the complete text or
the statistics are refused, and what it receives is JSON with the five counters; buffers of
176 bytes and more take every statistics, and no smaller one does; and the texts of two
statistics are the same exactly if these counters are. -/
theorem stats_complete_and_unambiguous :
    (∀ (stats : EbafCryptoStats) (out : CString) (outLen : Nat),
      (0 ≤ (ebafFormatStatsJson stats out outLen).1 ↔ stats.json.length < outLen) ∧
      (0 ≤ (ebafFormatStatsJson stats out outLen).1 →
        ebafFormatStatsJson stats out outLen = ((stats.json.length : Int), stats.json) ∧
        parse (ebafFormatStatsJson stats out outLen).2 = some (.obj stats.members))) ∧
    (∀ outLen, (∀ stats out, 0 ≤ (ebafFormatStatsJson stats out outLen).1) ↔ 176 ≤ outLen) ∧
    ∀ (stats stats' : EbafCryptoStats) (out out' : CString) (n n' : Nat),
      0 ≤ (ebafFormatStatsJson stats out n).1 → 0 ≤ (ebafFormatStatsJson stats' out' n').1 →
      ((ebafFormatStatsJson stats out n).2 = (ebafFormatStatsJson stats' out' n').2 ↔
        ∀ c ∈ Counter.inJson, stats c = stats' c) := by
  have hwhole : ∀ {stats out outLen}, 0 ≤ (ebafFormatStatsJson stats out outLen).1 →
      ebafFormatStatsJson stats out outLen = ((stats.json.length : Int), stats.json) :=
    fun h => formatInto_of_lt (formatInto_nonneg_iff.mp h) _
  refine ⟨fun stats out outLen => ⟨formatInto_nonneg_iff, fun h => ⟨hwhole h, ?_⟩⟩, ?_, ?_⟩
  · rw [hwhole h]
    exact stats.parse_json
  · intro outLen
    constructor
    · intro hall
      have hfull := formatInto_nonneg_iff.mp (hall .full [])
      rw [EbafCryptoStats.length_json_full] at hfull
      exact hfull
    · intro hlarge stats out
      exact formatInto_nonneg_iff.mpr (Nat.lt_of_le_of_lt stats.length_json_le hlarge)
  · intro stats stats' out out' n n' h h'
    rw [hwhole h, hwhole h']
    exact EbafCryptoStats.json_eq_iff

/-- The statistics of the unit test. -/
def tenSeen : EbafCryptoStats
  | .packetsSeen => 10
  | .packetsPassed => 2
  | .packetsCryptoOk => 7
  | .packetsCryptoFail => 1
  | .packetsMalformed => 3
  | _ => 0

theorem stats_complete_of_ten : ∃ text,
    ebafFormatStatsJson tenSeen [] 256 = ((text.length : Int), text) ∧
    text = lit "\x7b\"type\":\"stats\",\"seen\":10,\"passed\":2," ++
      lit "\"crypto_ok\":7,\"crypto_fail\":1,\"malformed\":3\x7d" ∧
    parse text = some (.obj tenSeen.members) := by
  obtain ⟨hwhole, hroom, -⟩ := stats_complete_and_unambiguous
  obtain ⟨heq, hparse⟩ := (hwhole tenSeen [] 256).2 ((hroom 256).mpr (by decide) tenSeen [])
  rw [heq] at hparse
  exact ⟨tenSeen.json, heq, by decide, hparse⟩

end Ebaf
