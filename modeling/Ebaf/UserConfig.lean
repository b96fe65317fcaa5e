import Ebaf.CryptoCommon
import Ebaf.CStrings

/-! # The command line

`ebaf_parse_args` reads the argument vector from left to right into its locals
and the configuration (`ParsedArgs`), then checks what it has read and fills in
the rest.  `ebafParseArgs_wellFormed` lists what every accepted configuration
satisfies; the loader and the packet programs rely on nothing else.
-/
namespace Ebaf
open CStrings

/-! ## Keys and numbers -/

/-- `hex_value` -/
def hexValue (c : UInt8) : Option Nat :=
  if 48 ≤ c ∧ c ≤ 57 then some (c.toNat - 48)
  else if 97 ≤ c ∧ c ≤ 102 then some (c.toNat - 97 + 10)
  else if 65 ≤ c ∧ c ≤ 70 then some (c.toNat - 65 + 10)
  else none

/-- The loop of `ebaf_parse_hex_key`: two digits for each byte. -/
def hexBytes : CString → Option (List UInt8)
  | hi :: lo :: rest => do
    let hi ← hexValue hi
    let lo ← hexValue lo
    let bytes ← hexBytes rest
    pure (UInt8.ofNat (hi <<< 4 ||| lo) :: bytes)
  | _ => some []

/-- `ebaf_parse_hex_key`: the bytes written to `out`. -/
def ebafParseHexKey (hex : CString) (outLen : Nat) : Option (List UInt8) :=
  if hex.length ≠ outLen * 2 then none else hexBytes hex

/-- `parse_uint` -/
def parseUint (text : CString) (min max : UInt32) : Option UInt32 :=
  if text = [] then none
  else
    let r := strtoul text
    if r.erange = true ∨ r.rest.length = text.length ∨ r.rest ≠ [] ∨ r.value < min.toNat ∨
      max.toNat < r.value then none
    else some (UInt32.ofNat r.value)

def uintMax : UInt32 := 4294967295

theorem hexBytes_length : ∀ {hex : CString} {n : Nat} {bytes : List UInt8},
    hex.length = n * 2 → hexBytes hex = some bytes → bytes.length = n
  | [], n, bytes, hlen, h => by
    obtain rfl : n = 0 := by simp only [List.length_nil] at hlen; omega
    cases h
    rfl
  | [_], n, bytes, hlen, h => by
    simp only [List.length_cons, List.length_nil] at hlen
    omega
  | hi :: lo :: rest, n, bytes, hlen, h => by
    simp only [List.length_cons] at hlen
    simp only [hexBytes, Option.bind_eq_bind, Option.bind_eq_some_iff] at h
    obtain ⟨a, -, b, -, tail, htail, h⟩ := h
    cases h
    have := hexBytes_length (n := n - 1) (by omega) htail
    rw [List.length_cons]
    omega

theorem ebafParseHexKey_length {hex : CString} {n : Nat} {bytes : List UInt8}
    (h : ebafParseHexKey hex n = some bytes) : bytes.length = n := by
  rw [ebafParseHexKey] at h
  split at h
  · cases h
  · exact hexBytes_length (not_not.mp ‹_›) h

theorem parseUint_bounds {text : CString} {min max n : UInt32}
    (h : parseUint text min max = some n) : min ≤ n ∧ n ≤ max := by
  rw [parseUint] at h
  split at h
  · cases h
  dsimp only at h
  split at h
  · cases h
  rename_i hn
  simp only [not_or, Nat.not_lt] at hn
  obtain ⟨-, -, -, hmin, hmax⟩ := hn
  obtain rfl := Option.some.inj h
  have hfits : (strtoul text).value < 4294967296 := by
    have := max.toNat_lt
    omega
  have hval : (UInt32.ofNat (strtoul text).value).toNat = (strtoul text).value := by
    rw [UInt32.toNat_ofNat']
    exact Nat.mod_eq_of_lt hfits
  rw [UInt32.le_iff_toNat_le, UInt32.le_iff_toNat_le, hval]
  exact ⟨hmin, hmax⟩

/-! ## The configuration -/

/-- `cfg->hook`: which programs are attached. -/
inductive Hook where
  | xdp | tc | both
  deriving DecidableEq

/-- `cfg->tc_attach` -/
inductive TcAttach where
  | auto | ingress | egress
  deriving DecidableEq

/-- `struct ebaf_user_config` -/
structure EbafUserConfig where
  iface : CString
  crypto : EbafCryptoConfig
  hook : Hook
  tcAttach : TcAttach
  statsIntervalSec : UInt32
  durationSec : UInt32
  printEvents : Bool
  outputJsonl : Bool
  deriving DecidableEq

def ebafIfaceNameMax : Nat := 64

/-- What the loop over the arguments has read: the locals of `ebaf_parse_args`
and the members of `cfg` it writes. -/
structure ParsedArgs where
  iface : Option CString
  mode : Option CString
  key : Option CString
  algo : CString
  port : UInt32
  statsIntervalSec : UInt32
  durationSec : UInt32
  hook : Hook
  tcAttach : TcAttach
  flags : UInt32
  printEvents : Bool
  outputJsonl : Bool
  deriving DecidableEq

namespace ParsedArgs

/-- Before the loop. -/
def init : ParsedArgs where
  iface := none
  mode := none
  key := none
  algo := lit "cbc-aes"
  port := UInt32.ofNat ebafDefaultUdpPort
  statsIntervalSec := 1
  durationSec := 0
  hook := .xdp
  tcAttach := .auto
  flags := 0
  printEvents := false
  outputJsonl := false

end ParsedArgs

/-- The options that take the argument after them. -/
inductive ValueOption where
  | iface | mode | key | algo | port | statsInterval | duration | hook
  deriving DecidableEq

namespace ValueOption

def name : ValueOption → CString
  | iface => lit "--iface"
  | mode => lit "--mode"
  | key => lit "--key"
  | algo => lit "--algo"
  | port => lit "--port"
  | statsInterval => lit "--stats-interval"
  | duration => lit "--duration"
  | hook => lit "--hook"

/-- `--hook` -/
def parseHook (hook : CString) : Option Hook :=
  if hook = lit "xdp" then some .xdp
  else if hook = lit "tc" then some .tc
  else if hook = lit "both" then some .both
  else none

/-- What an option does with its value. -/
def set (value : CString) (args : ParsedArgs) : ValueOption → Option ParsedArgs
  | iface => some { args with iface := some value }
  | mode => some { args with mode := some value }
  | key => some { args with key := some value }
  | algo => some { args with algo := value }
  | port => (parseUint value 1 65535).map fun n => { args with port := n }
  | statsInterval => (parseUint value 1 uintMax).map fun n => { args with statsIntervalSec := n }
  | duration => (parseUint value 1 uintMax).map fun n => { args with durationSec := n }
  | hook => (parseHook value).map fun h => { args with hook := h }

/-- The option an argument names, in the order of the comparisons. -/
def ofArg (arg : CString) : Option ValueOption :=
  [iface, mode, key, algo, port, statsInterval, duration, hook].find? fun o => arg = o.name

end ValueOption

/-- The options that stand alone. -/
inductive Switch where
  | events | jsonl | transparent | tcIngress | tcEgress
  deriving DecidableEq

namespace Switch

def name : Switch → CString
  | events => lit "--events"
  | jsonl => lit "--jsonl"
  | transparent => lit "--transparent"
  | tcIngress => lit "--tc-ingress"
  | tcEgress => lit "--tc-egress"

def set (args : ParsedArgs) : Switch → ParsedArgs
  | events => { args with printEvents := true }
  | jsonl => { args with outputJsonl := true, printEvents := true }
  | transparent => { args with flags := args.flags ||| ebafCryptoFTransparent }
  | tcIngress => { args with tcAttach := .ingress }
  | tcEgress => { args with tcAttach := .egress }

def ofArg (arg : CString) : Option Switch :=
  [events, jsonl, transparent, tcIngress, tcEgress].find? fun o => arg = o.name

end Switch

namespace ParsedArgs

/-- The loop: a value option without an argument after it falls through to the
switches, which do not know it. -/
def read : List CString → ParsedArgs → Option ParsedArgs
  | [], args => some args
  | [arg], args => (Switch.ofArg arg).map (Switch.set args)
  | arg :: value :: rest, args =>
    match ValueOption.ofArg arg with
    | some o => (o.set value args).bind (read rest)
    | none => (Switch.ofArg arg).bind fun o => read (value :: rest) (o.set args)

end ParsedArgs

/-- `--mode` -/
def parseMode (mode : CString) : Option UInt32 :=
  if mode = lit "encrypt" then some ebafActionEncrypt
  else if mode = lit "decrypt" then some ebafActionDecrypt
  else none

/-- `--algo`, with the key length it asks for. -/
def parseAlgo (algo : CString) : Option (UInt32 × Nat) :=
  if algo = lit "cbc-aes" then some (ebafAlgoCbcAes, ebafAes128KeyBytes)
  else if algo = lit "chacha20" then some (ebafAlgoChacha20, ebafChacha20KeyBytes)
  else none

/-- `ebaf_parse_args` after its loop. -/
def ParsedArgs.finish (args : ParsedArgs) : Option EbafUserConfig := do
  let iface ← args.iface
  let mode ← args.mode
  let key ← args.key
  if ebafIfaceNameMax ≤ iface.length then none
  else
    -- every algorithm is accepted for every hook
    let action ← parseMode mode
    let (algo, keyLen) ← parseAlgo args.algo
    let bytes ← ebafParseHexKey key keyLen
    pure
      { iface := iface
        crypto :=
          { key := bytes ++ List.replicate (ebafCryptoMaxKeyBytes - keyLen) 0
            keyLen := UInt32.ofNat keyLen
            action := action
            algo := algo
            flags := args.flags
            udpPort := UInt16.ofNat args.port.toNat }
        hook := args.hook
        tcAttach := args.tcAttach
        statsIntervalSec := args.statsIntervalSec
        durationSec := args.durationSec
        printEvents := args.printEvents
        outputJsonl := args.outputJsonl }

/-- `ebaf_parse_args`; the first argument is the program's name. -/
def ebafParseArgs (argv : List CString) : Option EbafUserConfig :=
  (ParsedArgs.read argv.tail .init).bind ParsedArgs.finish

/-! ## What an accepted configuration satisfies -/

/-- The numbers and flags are in their ranges. -/
structure ParsedArgs.InRange (args : ParsedArgs) : Prop where
  flags : args.flags = 0 ∨ args.flags = ebafCryptoFTransparent
  port : 1 ≤ args.port ∧ args.port ≤ 65535
  interval : 1 ≤ args.statsIntervalSec

namespace ParsedArgs
variable {value : CString} {args args' : ParsedArgs}

theorem init_inRange : init.InRange := ⟨Or.inl rfl, by decide, by decide⟩

theorem InRange.setValue (h : args.InRange) {o : ValueOption} (hs : o.set value args = some args') :
    args'.InRange := by
  obtain ⟨hflags, hport, hinterval⟩ := h
  cases o with
  | iface | mode | key | algo =>
    cases hs
    exact ⟨hflags, hport, hinterval⟩
  | port =>
    obtain ⟨n, hn, rfl⟩ := Option.map_eq_some_iff.mp hs
    exact ⟨hflags, parseUint_bounds hn, hinterval⟩
  | statsInterval =>
    obtain ⟨n, hn, rfl⟩ := Option.map_eq_some_iff.mp hs
    exact ⟨hflags, hport, (parseUint_bounds hn).1⟩
  | duration | hook =>
    obtain ⟨n, -, rfl⟩ := Option.map_eq_some_iff.mp hs
    exact ⟨hflags, hport, hinterval⟩

theorem InRange.setSwitch (h : args.InRange) (o : Switch) : (o.set args).InRange := by
  obtain ⟨hflags, hport, hinterval⟩ := h
  cases o with
  | transparent =>
    refine ⟨Or.inr ?_, hport, hinterval⟩
    show args.flags ||| ebafCryptoFTransparent = _
    rcases hflags with h | h <;> rw [h] <;> decide
  | events | jsonl | tcIngress | tcEgress => exact ⟨hflags, hport, hinterval⟩

/-- **The loop keeps numbers and flags in their ranges.** -/
theorem InRange.read : ∀ {argv : List CString} {args args' : ParsedArgs}, args.InRange →
    read argv args = some args' → args'.InRange
  | [], args, args', h, hr => by
    cases hr
    exact h
  | [arg], args, args', h, hr => by
    obtain ⟨o, -, rfl⟩ := Option.map_eq_some_iff.mp hr
    exact h.setSwitch o
  | arg :: value :: rest, args, args', h, hr => by
    rw [ParsedArgs.read] at hr
    split at hr
    · obtain ⟨next, hnext, hr⟩ := Option.bind_eq_some_iff.mp hr
      exact (h.setValue hnext).read hr
    · obtain ⟨o, -, hr⟩ := Option.bind_eq_some_iff.mp hr
      exact (h.setSwitch o).read hr

end ParsedArgs

/-- What the loader and the packet programs may rely on. -/
structure EbafUserConfig.WellFormed (cfg : EbafUserConfig) : Prop where
  iface : cfg.iface.length < ebafIfaceNameMax
  action : cfg.crypto.action = ebafActionEncrypt ∨ cfg.crypto.action = ebafActionDecrypt
  algo : (cfg.crypto.algo = ebafAlgoCbcAes ∧ cfg.crypto.keyLen = UInt32.ofNat ebafAes128KeyBytes) ∨
    (cfg.crypto.algo = ebafAlgoChacha20 ∧ cfg.crypto.keyLen = UInt32.ofNat ebafChacha20KeyBytes)
  key : cfg.crypto.key.length = ebafCryptoMaxKeyBytes
  unused : ∀ i, cfg.crypto.keyLen.toNat ≤ i → cfg.crypto.key.getD i 0 = 0
  flags : cfg.crypto.flags = 0 ∨ cfg.crypto.flags = ebafCryptoFTransparent
  port : cfg.crypto.udpPort ≠ 0
  interval : 1 ≤ cfg.statsIntervalSec

theorem parseMode_eq_some {mode : CString} {action : UInt32} (h : parseMode mode = some action) :
    action = ebafActionEncrypt ∨ action = ebafActionDecrypt := by
  rw [parseMode] at h
  split at h
  · cases h; exact Or.inl rfl
  split at h
  · cases h; exact Or.inr rfl
  · cases h

theorem parseAlgo_eq_some {text : CString} {algo : UInt32} {keyLen : Nat}
    (h : parseAlgo text = some (algo, keyLen)) :
    (algo = ebafAlgoCbcAes ∧ keyLen = ebafAes128KeyBytes) ∨
      (algo = ebafAlgoChacha20 ∧ keyLen = ebafChacha20KeyBytes) := by
  rw [parseAlgo] at h
  split at h
  · cases h; exact Or.inl ⟨rfl, rfl⟩
  split at h
  · cases h; exact Or.inr ⟨rfl, rfl⟩
  · cases h

/-- A key and zeros behind it: `i` is behind the key. -/
theorem getD_padded {bytes : List UInt8} {n i : Nat} (h : bytes.length ≤ i) :
    (bytes ++ List.replicate n 0).getD i 0 = 0 := by
  rw [List.getD_eq_getElem?_getD, List.getElem?_append_right h, List.getElem?_replicate]
  split <;> rfl

theorem ParsedArgs.finish_wellFormed {args : ParsedArgs} {cfg : EbafUserConfig}
    (hr : args.InRange) (h : args.finish = some cfg) : cfg.WellFormed := by
  simp only [ParsedArgs.finish, Option.bind_eq_bind, Option.bind_eq_some_iff] at h
  obtain ⟨iface, -, mode, -, key, -, h⟩ := h
  split at h
  · cases h
  rename_i hiface
  simp only [Option.bind_eq_some_iff] at h
  obtain ⟨action, haction, ⟨algo, keyLen⟩, halgo, bytes, hbytes, h⟩ := h
  cases h
  have hbytes := ebafParseHexKey_length hbytes
  have hmax : keyLen ≤ ebafCryptoMaxKeyBytes := by
    rcases parseAlgo_eq_some halgo with ⟨-, rfl⟩ | ⟨-, rfl⟩ <;> decide
  have hkeyLen : (UInt32.ofNat keyLen).toNat = keyLen := by
    rcases parseAlgo_eq_some halgo with ⟨-, rfl⟩ | ⟨-, rfl⟩ <;> rfl
  constructor
  · exact Nat.not_le.mp hiface
  · exact parseMode_eq_some haction
  · rcases parseAlgo_eq_some halgo with ⟨rfl, rfl⟩ | ⟨rfl, rfl⟩
    · exact Or.inl ⟨rfl, rfl⟩
    · exact Or.inr ⟨rfl, rfl⟩
  · dsimp only
    rw [List.length_append, hbytes, List.length_replicate]
    omega
  · intro i hi
    exact getD_padded (by rw [hbytes, ← hkeyLen]; exact hi)
  · exact hr.flags
  · intro hzero
    have hlo := UInt32.le_iff_toNat_le.mp hr.port.1
    have hhi := UInt32.le_iff_toNat_le.mp hr.port.2
    have : args.port.toNat % 65536 = 0 := by
      rw [← UInt16.toNat_ofNat']
      exact congrArg UInt16.toNat hzero
    have h1 : (1 : UInt32).toNat = 1 := rfl
    have h2 : (65535 : UInt32).toNat = 65535 := rfl
    omega
  · exact hr.interval

/-- **Every accepted argument vector gives a well-formed configuration.** -/
theorem ebafParseArgs_wellFormed {argv : List CString} {cfg : EbafUserConfig}
    (h : ebafParseArgs argv = some cfg) : cfg.WellFormed := by
  obtain ⟨args, hargs, hfinish⟩ := Option.bind_eq_some_iff.mp h
  exact ParsedArgs.finish_wellFormed (ParsedArgs.init_inRange.read hargs) hfinish

end Ebaf
