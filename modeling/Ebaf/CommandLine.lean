import Ebaf.HexText

/-! # The grammar of the command line

The loop of `ebaf_parse_args` consumes one or two arguments at a time: an option
group.  An argument vector is accepted exactly when it splits into groups whose
values are acceptable, and the configuration holds the last value of each option.
What the configuration holds depends, for each field, on the groups that set the
field only, so the order between groups of different fields does not matter.
-/
namespace Ebaf
open CStrings

/-! ## Option groups -/

/-- An option with the argument it takes. -/
inductive OptionGroup where
  | switch (o : Switch)
  | value (o : ValueOption) (arg : CString)
  deriving DecidableEq

namespace OptionGroup

/-- The arguments of a group. -/
def args : OptionGroup → List CString
  | switch o => [o.name]
  | value o arg => [o.name, arg]

/-- What the loop does with a group. -/
def apply (a : ParsedArgs) : OptionGroup → Option ParsedArgs
  | switch o => some (o.set a)
  | value o arg => o.set arg a

/-- The value of an option, if the group has one. -/
def valueOf (o : ValueOption) : OptionGroup → Option CString
  | switch _ => none
  | value o' arg => if o' = o then some arg else none

/-- The end of the interface the group selects. -/
def attachOf : OptionGroup → Option TcAttach
  | switch .tcIngress => some .ingress
  | switch .tcEgress => some .egress
  | _ => none

end OptionGroup

/-- The argument vector of a list of groups. -/
def groupArgs (groups : List OptionGroup) : List CString := groups.flatMap OptionGroup.args

/-- The loop over groups. -/
def applyAll : List OptionGroup → ParsedArgs → Option ParsedArgs
  | [], a => some a
  | g :: groups, a => (g.apply a).bind (applyAll groups)

theorem ValueOption.ofArg_name (o : ValueOption) : ValueOption.ofArg o.name = some o := by
  cases o <;> decide

theorem Switch.ofArg_name (o : Switch) : Switch.ofArg o.name = some o := by
  cases o <;> decide

theorem ValueOption.ofArg_switch (o : Switch) : ValueOption.ofArg o.name = none := by
  cases o <;> decide

theorem ValueOption.name_of_ofArg {arg : CString} {o : ValueOption}
    (h : ValueOption.ofArg arg = some o) : arg = o.name := by
  have hfound := List.find?_some h
  exact of_decide_eq_true hfound

theorem Switch.name_of_ofArg {arg : CString} {o : Switch} (h : Switch.ofArg arg = some o) :
    arg = o.name := by
  have hfound := List.find?_some h
  exact of_decide_eq_true hfound

/-! ## Splitting the argument vector -/

variable {a a' : ParsedArgs} {g g' : OptionGroup} {groups groups' : List OptionGroup}

/-- **The loop reads a split argument vector group by group.** -/
theorem read_groupArgs (groups : List OptionGroup) (a : ParsedArgs) :
    ParsedArgs.read (groupArgs groups) a = applyAll groups a := by
  induction groups generalizing a with
  | nil => rfl
  | cons g groups ih =>
    cases g with
    | value o arg =>
      show ParsedArgs.read (o.name :: arg :: groupArgs groups) a = (o.set arg a).bind _
      rw [ParsedArgs.read, ValueOption.ofArg_name]
      exact congrArg ((o.set arg a).bind ·) (funext ih)
    | switch o =>
      show ParsedArgs.read (o.name :: groupArgs groups) a = applyAll groups (o.set a)
      rw [← ih]
      cases groupArgs groups with
      | nil =>
        show (Switch.ofArg o.name).map _ = _
        rw [Switch.ofArg_name]
        rfl
      | cons arg rest =>
        rw [ParsedArgs.read, ValueOption.ofArg_switch, Switch.ofArg_name]
        rfl

/-- **What the loop accepts is split into groups.** -/
theorem exists_groups_of_read : ∀ {argv : List CString} {a a' : ParsedArgs},
    ParsedArgs.read argv a = some a' → ∃ groups, argv = groupArgs groups
  | [], _, _, _ => ⟨[], rfl⟩
  | [arg], _, _, h => by
    obtain ⟨o, ho, -⟩ := Option.map_eq_some_iff.mp h
    exact ⟨[.switch o], congrArg (· :: []) (Switch.name_of_ofArg ho)⟩
  | arg :: value :: rest, a, a', h => by
    rw [ParsedArgs.read] at h
    split at h
    · rename_i o ho
      obtain ⟨next, -, hrest⟩ := Option.bind_eq_some_iff.mp h
      obtain ⟨groups, rfl⟩ := exists_groups_of_read hrest
      exact ⟨.value o value :: groups, congrArg (· :: _) (ValueOption.name_of_ofArg ho)⟩
    · obtain ⟨o, ho, hrest⟩ := Option.bind_eq_some_iff.mp h
      obtain ⟨groups, hgroups⟩ := exists_groups_of_read hrest
      refine ⟨.switch o :: groups, ?_⟩
      rw [hgroups, Switch.name_of_ofArg ho]
      rfl

/-- A group can be told from its first argument. -/
theorem args_append_inj {rest rest' : List CString} (h : g.args ++ rest = g'.args ++ rest') :
    g = g' ∧ rest = rest' := by
  cases g with
  | switch o =>
    cases g' with
    | switch o' =>
      obtain ⟨hname, hrest⟩ := List.cons.inj h
      have ho := Switch.ofArg_name o
      rw [hname, Switch.ofArg_name] at ho
      exact ⟨congrArg OptionGroup.switch (Option.some.inj ho).symm, hrest⟩
    | value o' arg' =>
      have ho := ValueOption.ofArg_switch o
      rw [(List.cons.inj h).1, ValueOption.ofArg_name] at ho
      cases ho
  | value o arg =>
    cases g' with
    | switch o' =>
      have ho := ValueOption.ofArg_switch o'
      rw [← (List.cons.inj h).1, ValueOption.ofArg_name] at ho
      cases ho
    | value o' arg' =>
      obtain ⟨hname, htail⟩ := List.cons.inj h
      obtain ⟨rfl, hrest⟩ := List.cons.inj htail
      have ho := ValueOption.ofArg_name o
      rw [hname, ValueOption.ofArg_name] at ho
      cases ho
      exact ⟨rfl, hrest⟩

/-- **There is one way to split an argument vector.** -/
theorem groupArgs_injective (h : groupArgs groups = groupArgs groups') : groups = groups' := by
  induction groups generalizing groups' with
  | nil =>
    rcases groups' with - | ⟨g', groups'⟩
    · rfl
    · cases g' <;> cases h
  | cons g groups ih =>
    rcases groups' with - | ⟨g', groups'⟩
    · cases g <;> cases h
    · obtain ⟨rfl, hrest⟩ := args_append_inj h
      rw [ih hrest]

/-! ## The last value of an option -/

/-- The value an option is given last. -/
def lastValue (o : ValueOption) (groups : List OptionGroup) : Option CString :=
  (groups.filterMap (OptionGroup.valueOf o)).getLast?

/-- The number of a numeric option, and its default. -/
def lastNumber (o : ValueOption) (min max default : UInt32) (groups : List OptionGroup) :
    Option UInt32 :=
  match lastValue o groups with
  | none => some default
  | some text => parseUint text min max

def lastHook (groups : List OptionGroup) : Option Hook :=
  match lastValue .hook groups with
  | none => some .xdp
  | some hook => ValueOption.parseHook hook

/-- The end of the interface that is selected last. -/
def lastAttach (groups : List OptionGroup) : TcAttach :=
  (groups.filterMap OptionGroup.attachOf).getLast?.getD .auto

/-- A switch is given. -/
def Given (o : Switch) (groups : List OptionGroup) : Prop := .switch o ∈ groups

instance (o : Switch) : Decidable (Given o groups) := inferInstanceAs (Decidable (_ ∈ _))

theorem getLast?_filterMap_concat {α β : Type} (f : α → Option β) (l : List α) (x : α) :
    ((l ++ [x]).filterMap f).getLast? = (f x).or (l.filterMap f).getLast? := by
  rw [List.filterMap_append, List.getLast?_append]
  cases h : f x <;> simp [h]

theorem lastValue_concat (o : ValueOption) (groups : List OptionGroup) (g : OptionGroup) :
    lastValue o (groups ++ [g]) = (g.valueOf o).or (lastValue o groups) :=
  getLast?_filterMap_concat _ _ _

@[simp] theorem lastValue_switch (o : ValueOption) (groups : List OptionGroup) (o' : Switch) :
    lastValue o (groups ++ [.switch o']) = lastValue o groups := by
  rw [lastValue_concat, OptionGroup.valueOf, Option.none_or]

@[simp] theorem lastValue_self (o : ValueOption) (groups : List OptionGroup) (arg : CString) :
    lastValue o (groups ++ [.value o arg]) = some arg := by
  rw [lastValue_concat, OptionGroup.valueOf, if_pos rfl, Option.some_or]

theorem lastValue_other {o o' : ValueOption} (h : o' ≠ o) (groups : List OptionGroup)
    (arg : CString) : lastValue o (groups ++ [.value o' arg]) = lastValue o groups := by
  rw [lastValue_concat, OptionGroup.valueOf, if_neg h, Option.none_or]

@[simp] theorem lastAttach_value (groups : List OptionGroup) (o : ValueOption) (arg : CString) :
    lastAttach (groups ++ [.value o arg]) = lastAttach groups := by
  rw [lastAttach, getLast?_filterMap_concat]
  rfl

@[simp] theorem given_value (o : Switch) (groups : List OptionGroup) (o' : ValueOption)
    (arg : CString) : Given o (groups ++ [.value o' arg]) ↔ Given o groups := by
  simp [Given]

@[simp] theorem given_switch (o : Switch) (groups : List OptionGroup) (o' : Switch) :
    Given o (groups ++ [.switch o']) ↔ Given o groups ∨ o = o' := by
  simp [Given]

/-! ## What the loop collects -/

/-- The local of an option holds the value the option was given last. -/
def Holds (groups : List OptionGroup) (a : ParsedArgs) : ValueOption → Prop
  | .iface => a.iface = lastValue .iface groups
  | .mode => a.mode = lastValue .mode groups
  | .key => a.key = lastValue .key groups
  | .algo => a.algo = (lastValue .algo groups).getD (lit "cbc-aes")
  | .port => lastNumber .port 1 65535 (UInt32.ofNat ebafDefaultUdpPort) groups = some a.port
  | .statsInterval => lastNumber .statsInterval 1 uintMax 1 groups = some a.statsIntervalSec
  | .duration => lastNumber .duration 1 uintMax 0 groups = some a.durationSec
  | .hook => lastHook groups = some a.hook

/-- The locals of `ebaf_parse_args` after these groups. -/
structure Collects (groups : List OptionGroup) (a : ParsedArgs) : Prop where
  values : ∀ o, Holds groups a o
  tcAttach : a.tcAttach = lastAttach groups
  flags : a.flags = if Given .transparent groups then ebafCryptoFTransparent else 0
  printEvents : a.printEvents = true ↔ Given .events groups ∨ Given .jsonl groups
  outputJsonl : a.outputJsonl = true ↔ Given .jsonl groups

theorem collects_init : Collects [] .init where
  values := by rintro (_ | _) <;> rfl
  tcAttach := rfl
  flags := rfl
  printEvents := by simp [ParsedArgs.init, Given]
  outputJsonl := by simp [ParsedArgs.init, Given]

/-- What an option holds depends on its last value. -/
theorem Holds.congr {o : ValueOption} (h : Holds groups a o)
    (hlast : lastValue o groups' = lastValue o groups) : Holds groups' a o := by
  cases o with
  | iface | mode | key | algo => exact h.trans (by rw [hlast])
  | port | statsInterval | duration =>
    rw [Holds, lastNumber, hlast]
    exact h
  | hook =>
    rw [Holds, lastHook, hlast]
    exact h

/-- An option stores its value. -/
theorem Holds.self {o : ValueOption} {arg : CString} (hset : o.set arg a = some a') :
    Holds (groups ++ [.value o arg]) a' o := by
  cases o with
  | iface | mode | key =>
    cases hset
    rw [Holds, lastValue_self]
  | algo =>
    cases hset
    rw [Holds, lastValue_self]
    rfl
  | port | statsInterval | duration =>
    obtain ⟨n, hn, rfl⟩ := Option.map_eq_some_iff.mp hset
    rw [Holds, lastNumber, lastValue_self]
    exact hn
  | hook =>
    obtain ⟨n, hn, rfl⟩ := Option.map_eq_some_iff.mp hset
    rw [Holds, lastHook, lastValue_self]
    exact hn

/-- It leaves the other locals as they are. -/
theorem Holds.frame {o o' : ValueOption} {arg : CString} (hne : o ≠ o')
    (hset : o.set arg a = some a') (h : Holds groups a o') : Holds groups a' o' := by
  cases o with
  | iface | mode | key | algo =>
    cases hset
    cases o' <;> first | exact absurd rfl hne | exact h
  | port | statsInterval | duration | hook =>
    obtain ⟨n, -, rfl⟩ := Option.map_eq_some_iff.mp hset
    cases o' <;> first | exact absurd rfl hne | exact h

/-- **An option with its value.** -/
theorem Collects.value (h : Collects groups a) {o : ValueOption} {arg : CString}
    (hset : o.set arg a = some a') : Collects (groups ++ [.value o arg]) a' := by
  have hswitches : a'.tcAttach = a.tcAttach ∧ a'.flags = a.flags ∧
      a'.printEvents = a.printEvents ∧ a'.outputJsonl = a.outputJsonl := by
    cases o with
    | iface | mode | key | algo =>
      cases hset
      exact ⟨rfl, rfl, rfl, rfl⟩
    | port | statsInterval | duration | hook =>
      obtain ⟨n, -, rfl⟩ := Option.map_eq_some_iff.mp hset
      exact ⟨rfl, rfl, rfl, rfl⟩
  obtain ⟨htc, hflags, hprint, hjsonl⟩ := hswitches
  constructor
  · intro o'
    by_cases hne : o = o'
    · subst hne
      exact Holds.self hset
    · exact ((h.values o').frame hne hset).congr (lastValue_other hne groups arg)
  · rw [htc, h.tcAttach, lastAttach_value]
  · simp only [hflags, h.flags, given_value]
  · simp only [hprint, h.printEvents, given_value]
  · simp only [hjsonl, h.outputJsonl, given_value]

/-- **A switch.** -/
theorem Collects.switch (h : Collects groups a) (o : Switch) :
    Collects (groups ++ [.switch o]) (o.set a) := by
  constructor
  · intro o'
    refine Holds.congr ?_ (lastValue_switch o' groups o)
    have hvalue := h.values o'
    cases o <;> cases o' <;> exact hvalue
  · rw [lastAttach, getLast?_filterMap_concat]
    cases o with
    | tcIngress | tcEgress => rfl
    | events | jsonl | transparent => exact h.tcAttach
  · cases o with
    | transparent =>
      rw [if_pos ((given_switch ..).mpr (Or.inr rfl))]
      show a.flags ||| ebafCryptoFTransparent = _
      rw [h.flags]
      split <;> rfl
    | events | jsonl | tcIngress | tcEgress => simpa [Switch.set] using h.flags
  · cases o <;> simp [Switch.set, h.printEvents]
  · cases o <;> simp [Switch.set, h.outputJsonl]

/-- **The loop collects the last values.** -/
theorem Collects.applyAll {before : List OptionGroup} (h : Collects before a)
    (hall : applyAll groups a = some a') : Collects (before ++ groups) a' := by
  induction groups generalizing before a with
  | nil =>
    cases hall
    rwa [List.append_nil]
  | cons g groups ih =>
    obtain ⟨next, hnext, hrest⟩ := Option.bind_eq_some_iff.mp hall
    have hstep : Collects (before ++ [g]) next := by
      cases g with
      | switch o =>
        cases hnext
        exact h.switch o
      | value o arg => exact h.value hnext
    rw [List.append_cons]
    exact ih hstep hrest

/-! ## What is accepted -/

/-- A value the option takes. -/
def AcceptableValue : ValueOption → CString → Prop
  | .port, text => ∃ n, parseUint text 1 65535 = some n
  | .statsInterval, text | .duration, text => ∃ n, parseUint text 1 uintMax = some n
  | .hook, text => text = lit "xdp" ∨ text = lit "tc" ∨ text = lit "both"
  | .iface, _ | .mode, _ | .key, _ | .algo, _ => True

/-- The algorithms, each with the length of its key. -/
def KeyOf (algo : CString) (keyLen : Nat) : Prop :=
  (algo = lit "cbc-aes" ∧ keyLen = ebafAes128KeyBytes) ∨
    (algo = lit "chacha20" ∧ keyLen = ebafChacha20KeyBytes)

/-- The algorithm that is selected, by default the first. -/
def lastAlgo (groups : List OptionGroup) : CString :=
  (lastValue .algo groups).getD (lit "cbc-aes")

/-- The groups of an argument vector that is accepted. -/
structure Acceptable (groups : List OptionGroup) : Prop where
  values : ∀ o arg, .value o arg ∈ groups → AcceptableValue o arg
  iface : ∃ iface, lastValue .iface groups = some iface ∧ iface.length < ebafIfaceNameMax
  mode : ∃ mode, lastValue .mode groups = some mode ∧
    (mode = lit "encrypt" ∨ mode = lit "decrypt")
  key : ∃ key keyLen, lastValue .key groups = some key ∧ KeyOf (lastAlgo groups) keyLen ∧
    key.length = 2 * keyLen ∧ ∀ c ∈ key, IsHexDigit c

theorem parseHook_isSome_iff {text : CString} : (∃ h, ValueOption.parseHook text = some h) ↔
    text = lit "xdp" ∨ text = lit "tc" ∨ text = lit "both" := by
  unfold ValueOption.parseHook
  split <;> rename_i hxdp
  · exact ⟨fun _ => Or.inl hxdp, fun _ => ⟨_, rfl⟩⟩
  split <;> rename_i htc
  · exact ⟨fun _ => Or.inr (Or.inl htc), fun _ => ⟨_, rfl⟩⟩
  split <;> rename_i hboth
  · exact ⟨fun _ => Or.inr (Or.inr hboth), fun _ => ⟨_, rfl⟩⟩
  · constructor
    · rintro ⟨h, h'⟩
      cases h'
    · rintro (h | h | h)
      · exact absurd h hxdp
      · exact absurd h htc
      · exact absurd h hboth

theorem exists_map_iff {α β : Type} {f : α → β} {x : Option α} :
    (∃ b, x.map f = some b) ↔ ∃ n, x = some n := by
  constructor
  · rintro ⟨b, h⟩
    obtain ⟨n, hn, -⟩ := Option.map_eq_some_iff.mp h
    exact ⟨n, hn⟩
  · rintro ⟨n, hn⟩
    exact ⟨_, Option.map_eq_some_iff.mpr ⟨n, hn, rfl⟩⟩

theorem set_isSome_iff {o : ValueOption} {arg : CString} :
    (∃ a', o.set arg a = some a') ↔ AcceptableValue o arg := by
  cases o with
  | iface | mode | key | algo => exact ⟨fun _ => trivial, fun _ => ⟨_, rfl⟩⟩
  | port | statsInterval | duration => exact exists_map_iff
  | hook =>
    rw [AcceptableValue, ← parseHook_isSome_iff]
    exact exists_map_iff

/-- **The loop ends with success when it takes every value.** -/
theorem applyAll_isSome_iff : (∃ a', applyAll groups a = some a') ↔
    ∀ o arg, .value o arg ∈ groups → AcceptableValue o arg := by
  induction groups generalizing a with
  | nil => exact ⟨fun _ o arg h => absurd h List.not_mem_nil, fun _ => ⟨a, rfl⟩⟩
  | cons g groups ih =>
    simp only [applyAll, Option.bind_eq_some_iff, List.mem_cons]
    constructor
    · rintro ⟨a', next, hnext, hrest⟩ o arg (rfl | h)
      · exact set_isSome_iff.mp ⟨next, hnext⟩
      · exact ih.mp ⟨a', hrest⟩ o arg h
    · intro h
      have hnext : ∃ next, g.apply a = some next := by
        cases g with
        | switch o => exact ⟨_, rfl⟩
        | value o arg => exact set_isSome_iff.mpr (h o arg (Or.inl rfl))
      obtain ⟨next, hnext⟩ := hnext
      obtain ⟨a', hrest⟩ := ih.mpr fun o arg harg => h o arg (Or.inr harg)
      exact ⟨a', next, hnext, hrest⟩

/-! ## The configuration -/

/-- The configuration holds the last value of each option. -/
structure Configures (groups : List OptionGroup) (cfg : EbafUserConfig) : Prop where
  iface : lastValue .iface groups = some cfg.iface
  action : (lastValue .mode groups = some (lit "encrypt") ∧
      cfg.crypto.action = ebafActionEncrypt) ∨
    (lastValue .mode groups = some (lit "decrypt") ∧ cfg.crypto.action = ebafActionDecrypt)
  algo : (lastAlgo groups = lit "cbc-aes" ∧ cfg.crypto.algo = ebafAlgoCbcAes) ∨
    (lastAlgo groups = lit "chacha20" ∧ cfg.crypto.algo = ebafAlgoChacha20)
  keyLen : KeyOf (lastAlgo groups) cfg.crypto.keyLen.toNat
  key : ∃ key bytes, lastValue .key groups = some key ∧ bytes.length = cfg.crypto.keyLen.toNat ∧
    hexText bytes = key.map toLower ∧
    cfg.crypto.key = bytes ++ List.replicate (ebafCryptoMaxKeyBytes - bytes.length) 0
  udpPort : ∃ port, lastNumber .port 1 65535 (UInt32.ofNat ebafDefaultUdpPort) groups = some port ∧
    cfg.crypto.udpPort.toNat = port.toNat
  flags : cfg.crypto.flags = if Given .transparent groups then ebafCryptoFTransparent else 0
  hook : lastHook groups = some cfg.hook
  tcAttach : cfg.tcAttach = lastAttach groups
  statsInterval : lastNumber .statsInterval 1 uintMax 1 groups = some cfg.statsIntervalSec
  duration : lastNumber .duration 1 uintMax 0 groups = some cfg.durationSec
  printEvents : cfg.printEvents = true ↔ Given .events groups ∨ Given .jsonl groups
  outputJsonl : cfg.outputJsonl = true ↔ Given .jsonl groups

theorem parseMode_eq_some_iff {mode : CString} {action : UInt32} :
    parseMode mode = some action ↔ (mode = lit "encrypt" ∧ action = ebafActionEncrypt) ∨
      (mode = lit "decrypt" ∧ action = ebafActionDecrypt) := by
  have hne : lit "decrypt" ≠ lit "encrypt" := by decide
  constructor
  · intro h
    rw [parseMode] at h
    split at h
    · exact Or.inl ⟨‹_›, (Option.some.inj h).symm⟩
    split at h
    · exact Or.inr ⟨‹_›, (Option.some.inj h).symm⟩
    · cases h
  · rintro (⟨rfl, rfl⟩ | ⟨rfl, rfl⟩)
    · exact if_pos rfl
    · rw [parseMode, if_neg hne, if_pos rfl]

theorem parseAlgo_eq_some_iff {text : CString} {algo : UInt32} {keyLen : Nat} :
    parseAlgo text = some (algo, keyLen) ↔ KeyOf text keyLen ∧
      ((text = lit "cbc-aes" ∧ algo = ebafAlgoCbcAes) ∨
        (text = lit "chacha20" ∧ algo = ebafAlgoChacha20)) := by
  have hne : lit "chacha20" ≠ lit "cbc-aes" := by decide
  constructor
  · intro h
    rw [parseAlgo] at h
    split at h
    · cases h
      exact ⟨Or.inl ⟨‹_›, rfl⟩, Or.inl ⟨‹_›, rfl⟩⟩
    split at h
    · cases h
      exact ⟨Or.inr ⟨‹_›, rfl⟩, Or.inr ⟨‹_›, rfl⟩⟩
    · cases h
  · rintro ⟨hkey, ⟨rfl, rfl⟩ | ⟨rfl, rfl⟩⟩
    · rcases hkey with ⟨-, rfl⟩ | ⟨h, -⟩
      · exact if_pos rfl
      · exact absurd h.symm hne
    · rcases hkey with ⟨h, -⟩ | ⟨-, rfl⟩
      · exact absurd h hne
      · rw [parseAlgo, if_neg hne, if_pos rfl]

variable {cfg cfg' : EbafUserConfig}

/-- What the checks behind the loop ask for, and the configuration they leave. -/
theorem finish_eq_some_iff : a.finish = some cfg ↔
    ∃ iface, a.iface = some iface ∧ ∃ mode, a.mode = some mode ∧ ∃ key, a.key = some key ∧
      iface.length < ebafIfaceNameMax ∧ ∃ action, parseMode mode = some action ∧
      ∃ algo keyLen, parseAlgo a.algo = some (algo, keyLen) ∧
      ∃ bytes, ebafParseHexKey key keyLen = some bytes ∧
        { iface := iface
          crypto :=
            { key := bytes ++ List.replicate (ebafCryptoMaxKeyBytes - keyLen) 0
              keyLen := UInt32.ofNat keyLen
              action := action
              algo := algo
              flags := a.flags
              udpPort := UInt16.ofNat a.port.toNat }
          hook := a.hook
          tcAttach := a.tcAttach
          statsIntervalSec := a.statsIntervalSec
          durationSec := a.durationSec
          printEvents := a.printEvents
          outputJsonl := a.outputJsonl } = cfg := by
  simp only [ParsedArgs.finish, Option.bind_eq_bind, Option.bind_eq_some_iff,
    Option.ite_none_left_eq_some, Nat.not_le, Prod.exists, Option.pure_def, Option.some.injEq]

theorem toNat_keyLen {algo : CString} {keyLen : Nat} (h : KeyOf algo keyLen) :
    (UInt32.ofNat keyLen).toNat = keyLen := by
  rcases h with ⟨-, rfl⟩ | ⟨-, rfl⟩ <;> rfl

/-- A port fits its 16 bits. -/
theorem toNat_port {port : UInt32}
    (h : lastNumber .port 1 65535 (UInt32.ofNat ebafDefaultUdpPort) groups = some port) :
    (UInt16.ofNat port.toNat).toNat = port.toNat := by
  have hle : port.toNat ≤ 65535 := by
    rw [lastNumber] at h
    split at h
    · cases h
      decide
    · exact UInt32.le_iff_toNat_le.mp (parseUint_bounds h).2
  rw [UInt16.toNat_ofNat']
  exact Nat.mod_eq_of_lt (Nat.lt_succ_of_le hle)

/-- **The checks succeed on the groups that are acceptable.** -/
theorem Collects.finish_isSome_iff (h : Collects groups a) : (∃ cfg, a.finish = some cfg) ↔
    (∃ iface, lastValue .iface groups = some iface ∧ iface.length < ebafIfaceNameMax) ∧
    (∃ mode, lastValue .mode groups = some mode ∧
      (mode = lit "encrypt" ∨ mode = lit "decrypt")) ∧
    ∃ key keyLen, lastValue .key groups = some key ∧ KeyOf (lastAlgo groups) keyLen ∧
      key.length = 2 * keyLen ∧ ∀ c ∈ key, IsHexDigit c := by
  have hiface : a.iface = _ := h.values .iface
  have hmode : a.mode = _ := h.values .mode
  have hkey : a.key = _ := h.values .key
  have halgo : a.algo = lastAlgo groups := h.values .algo
  constructor
  · rintro ⟨cfg, hcfg⟩
    obtain ⟨iface, hi, mode, hm, key, hk, hlen, action, haction, algo, keyLen, hkeyLen, bytes,
      hbytes, -⟩ := finish_eq_some_iff.mp hcfg
    rw [halgo] at hkeyLen
    have hdigits := (ebafParseHexKey_isSome_iff key keyLen).mp ⟨bytes, hbytes⟩
    refine ⟨⟨iface, hiface ▸ hi, hlen⟩, ⟨mode, hmode ▸ hm, ?_⟩, key, keyLen, hkey ▸ hk,
      (parseAlgo_eq_some_iff.mp hkeyLen).1, hdigits⟩
    rcases parseMode_eq_some_iff.mp haction with ⟨h, -⟩ | ⟨h, -⟩
    · exact Or.inl h
    · exact Or.inr h
  · rintro ⟨⟨iface, hi, hlen⟩, ⟨mode, hm, hname⟩, key, keyLen, hk, hkeyOf, hdigits⟩
    obtain ⟨bytes, hbytes⟩ := (ebafParseHexKey_isSome_iff key keyLen).mpr hdigits
    have haction : ∃ action, parseMode mode = some action := by
      rcases hname with h | h
      · exact ⟨_, parseMode_eq_some_iff.mpr (Or.inl ⟨h, rfl⟩)⟩
      · exact ⟨_, parseMode_eq_some_iff.mpr (Or.inr ⟨h, rfl⟩)⟩
    have halgorithm : ∃ algo, parseAlgo a.algo = some (algo, keyLen) := by
      rw [halgo]
      rcases id hkeyOf with ⟨h, -⟩ | ⟨h, -⟩
      · exact ⟨_, parseAlgo_eq_some_iff.mpr ⟨hkeyOf, Or.inl ⟨h, rfl⟩⟩⟩
      · exact ⟨_, parseAlgo_eq_some_iff.mpr ⟨hkeyOf, Or.inr ⟨h, rfl⟩⟩⟩
    obtain ⟨action, haction⟩ := haction
    obtain ⟨algo, halgorithm⟩ := halgorithm
    exact ⟨_, finish_eq_some_iff.mpr ⟨iface, hiface.trans hi, mode, hmode.trans hm, key,
      hkey.trans hk, hlen, action, haction, algo, keyLen, halgorithm, bytes, hbytes, rfl⟩⟩

/-- **The configuration is the one the groups ask for.** -/
theorem Collects.configures (h : Collects groups a) (hcfg : a.finish = some cfg) :
    Configures groups cfg := by
  have hiface : a.iface = _ := h.values .iface
  have hmode : a.mode = _ := h.values .mode
  have hkey : a.key = _ := h.values .key
  have halgo : a.algo = lastAlgo groups := h.values .algo
  obtain ⟨iface, hi, mode, hm, key, hk, -, action, haction, algo, keyLen, hkeyLen, bytes,
    hbytes, rfl⟩ := finish_eq_some_iff.mp hcfg
  rw [halgo] at hkeyLen
  obtain ⟨hkeyOf, halgorithm⟩ := parseAlgo_eq_some_iff.mp hkeyLen
  have hlen := ebafParseHexKey_length hbytes
  have hfits := toNat_keyLen hkeyOf
  rw [hiface] at hi
  rw [hmode] at hm
  rw [hkey] at hk
  constructor
  · exact hi
  · rcases parseMode_eq_some_iff.mp haction with ⟨rfl, rfl⟩ | ⟨rfl, rfl⟩
    · exact Or.inl ⟨hm, rfl⟩
    · exact Or.inr ⟨hm, rfl⟩
  · exact halgorithm
  · exact hfits.symm ▸ hkeyOf
  · exact ⟨key, bytes, hk, hlen.trans hfits.symm, hexText_of_ebafParseHexKey hbytes,
      by rw [hlen]⟩
  · exact ⟨a.port, h.values .port, toNat_port (h.values .port)⟩
  · exact h.flags
  · exact h.values .hook
  · exact h.tcAttach
  · exact h.values .statsInterval
  · exact h.values .duration
  · exact h.printEvents
  · exact h.outputJsonl

/-- **What is accepted**: the argument vectors that split into acceptable groups. -/
theorem ebafParseArgs_isSome_iff (argv : List CString) : (∃ cfg, ebafParseArgs argv = some cfg) ↔
    ∃ groups, argv.tail = groupArgs groups ∧ Acceptable groups := by
  constructor
  · rintro ⟨cfg, h⟩
    obtain ⟨a, hread, hfinish⟩ := Option.bind_eq_some_iff.mp h
    obtain ⟨groups, hgroups⟩ := exists_groups_of_read hread
    rw [hgroups, read_groupArgs] at hread
    have hcollects := collects_init.applyAll hread
    obtain ⟨hiface, hmode, hkey⟩ := hcollects.finish_isSome_iff.mp ⟨cfg, hfinish⟩
    exact ⟨groups, hgroups, applyAll_isSome_iff.mp ⟨a, hread⟩, hiface, hmode, hkey⟩
  · rintro ⟨groups, hgroups, hvalues, hiface, hmode, hkey⟩
    obtain ⟨a, ha⟩ := applyAll_isSome_iff.mpr hvalues
    obtain ⟨cfg, hfinish⟩ :=
      (collects_init.applyAll ha).finish_isSome_iff.mpr ⟨hiface, hmode, hkey⟩
    refine ⟨cfg, Option.bind_eq_some_iff.mpr ⟨a, ?_, hfinish⟩⟩
    rw [hgroups, read_groupArgs, ha]

/-- **What is configured.** -/
theorem configures_of_ebafParseArgs {argv : List CString} (hgroups : argv.tail = groupArgs groups)
    (h : ebafParseArgs argv = some cfg) : Configures groups cfg := by
  obtain ⟨a, hread, hfinish⟩ := Option.bind_eq_some_iff.mp h
  rw [hgroups, read_groupArgs] at hread
  exact (collects_init.applyAll hread).configures hfinish

/-! ## The order of the groups -/

/-- The fields of the configuration that options set. -/
inductive Field where
  | iface | mode | key | algo | port | statsInterval | duration | hook
  | tcAttach | flags | printEvents | outputJsonl
  deriving DecidableEq

def ValueOption.field : ValueOption → Field
  | iface => .iface
  | mode => .mode
  | key => .key
  | algo => .algo
  | port => .port
  | statsInterval => .statsInterval
  | duration => .duration
  | hook => .hook

def OptionGroup.fields : OptionGroup → List Field
  | value o _ => [o.field]
  | switch .events => [.printEvents]
  | switch .jsonl => [.outputJsonl, .printEvents]
  | switch .transparent => [.flags]
  | switch .tcIngress | switch .tcEgress => [.tcAttach]

/-- The groups that set a field. -/
def setting (f : Field) (groups : List OptionGroup) : List OptionGroup :=
  groups.filter fun g => f ∈ g.fields

/-- Two lists of groups that differ in the order between groups of different fields
only: for each field they have the same groups in the same order. -/
def Reordered (groups groups' : List OptionGroup) : Prop :=
  ∀ f, setting f groups = setting f groups'

/-- Neighbours that set different fields can change places. -/
theorem reordered_swap (before after : List OptionGroup) (h : g.fields.Disjoint g'.fields) :
    Reordered (before ++ g :: g' :: after) (before ++ g' :: g :: after) := by
  intro f
  rw [setting, setting, List.filter_append, List.filter_append]
  by_cases hf : f ∈ g.fields
  · have hf' : f ∉ g'.fields := fun hf' => h hf hf'
    simp [hf, hf']
  · by_cases hf' : f ∈ g'.fields <;> simp [hf, hf']

/-- A list filtered for what a function is defined on. -/
theorem filterMap_setting {β : Type} {f : Field} (m : OptionGroup → Option β)
    (hm : ∀ g, f ∉ g.fields → m g = none) (groups : List OptionGroup) :
    groups.filterMap m = (setting f groups).filterMap m := by
  induction groups with
  | nil => rfl
  | cons g groups ih =>
    by_cases hg : f ∈ g.fields
    · have hcons : setting f (g :: groups) = g :: setting f groups := by simp [setting, hg]
      rw [hcons, List.filterMap_cons, List.filterMap_cons, ih]
    · have hcons : setting f (g :: groups) = setting f groups := by simp [setting, hg]
      rw [hcons, List.filterMap_cons, hm g hg, ih]

namespace Reordered

theorem lastValue (h : Reordered groups groups') (o : ValueOption) :
    lastValue o groups = lastValue o groups' := by
  have hnone : ∀ g : OptionGroup, o.field ∉ g.fields → g.valueOf o = none := by
    intro g hg
    cases g with
    | switch o' => rfl
    | value o' arg => exact if_neg fun ho => hg (by rw [ho]; exact List.mem_singleton_self _)
  rw [Ebaf.lastValue, filterMap_setting _ hnone, h, ← filterMap_setting _ hnone, Ebaf.lastValue]

theorem lastAttach (h : Reordered groups groups') : lastAttach groups = lastAttach groups' := by
  have hnone : ∀ g : OptionGroup, Field.tcAttach ∉ g.fields → g.attachOf = none := by
    intro g hg
    cases g with
    | value o arg => rfl
    | switch o =>
      cases o with
      | events | jsonl | transparent => rfl
      | tcIngress | tcEgress => exact absurd List.mem_cons_self hg
  rw [Ebaf.lastAttach, filterMap_setting _ hnone, h, ← filterMap_setting _ hnone, Ebaf.lastAttach]

theorem mem_iff (h : Reordered groups groups') (g : OptionGroup) : g ∈ groups ↔ g ∈ groups' := by
  have hfield : ∃ f, f ∈ g.fields := by
    cases g with
    | value o arg => exact ⟨_, List.mem_cons_self⟩
    | switch o => cases o <;> exact ⟨_, List.mem_cons_self⟩
  obtain ⟨f, hf⟩ := hfield
  have hmem : ∀ l : List OptionGroup, g ∈ l ↔ g ∈ setting f l := fun l => by
    rw [setting, List.mem_filter]
    exact ⟨fun hg => ⟨hg, decide_eq_true hf⟩, And.left⟩
  rw [hmem, h f, ← hmem]

theorem holds (h : Reordered groups groups') {o : ValueOption} (hold : Holds groups a o) :
    Holds groups' a o :=
  hold.congr (h.lastValue o).symm

/-- What the loop collects does not depend on the order between fields. -/
theorem collects (h : Reordered groups groups') (hc : Collects groups a) : Collects groups' a := by
  have hgiven : ∀ o, Given o groups ↔ Given o groups' := fun o => h.mem_iff _
  constructor
  · intro o
    exact h.holds (hc.values o)
  · rw [hc.tcAttach, h.lastAttach]
  · simp only [hc.flags, hgiven]
  · rw [hc.printEvents, hgiven, hgiven]
  · rw [hc.outputJsonl, hgiven]

end Reordered

/-- The groups determine what the loop collects. -/
theorem Collects.unique (h : Collects groups a) (h' : Collects groups a') : a = a' := by
  have hiface : a.iface = a'.iface := (h.values .iface).trans (h'.values .iface).symm
  have hmode : a.mode = a'.mode := (h.values .mode).trans (h'.values .mode).symm
  have hkey : a.key = a'.key := (h.values .key).trans (h'.values .key).symm
  have halgo : a.algo = a'.algo := (h.values .algo).trans (h'.values .algo).symm
  have hport : a.port = a'.port :=
    Option.some.inj ((h.values .port).symm.trans (h'.values .port))
  have hinterval : a.statsIntervalSec = a'.statsIntervalSec :=
    Option.some.inj ((h.values .statsInterval).symm.trans (h'.values .statsInterval))
  have hduration : a.durationSec = a'.durationSec :=
    Option.some.inj ((h.values .duration).symm.trans (h'.values .duration))
  have hhook : a.hook = a'.hook := Option.some.inj ((h.values .hook).symm.trans (h'.values .hook))
  have htc : a.tcAttach = a'.tcAttach := h.tcAttach.trans h'.tcAttach.symm
  have hflags : a.flags = a'.flags := h.flags.trans h'.flags.symm
  have hprint : a.printEvents = a'.printEvents :=
    Bool.eq_iff_iff.mpr (h.printEvents.trans h'.printEvents.symm)
  have hjsonl : a.outputJsonl = a'.outputJsonl :=
    Bool.eq_iff_iff.mpr (h.outputJsonl.trans h'.outputJsonl.symm)
  cases a
  cases a'
  simp only [ParsedArgs.mk.injEq]
  exact ⟨hiface, hmode, hkey, halgo, hport, hinterval, hduration, hhook, htc, hflags, hprint,
    hjsonl⟩

/-- **The order between groups that set different fields does not matter.** -/
theorem Reordered.ebafParseArgs (h : Reordered groups groups') (name name' : CString) :
    ebafParseArgs (name :: groupArgs groups) = ebafParseArgs (name' :: groupArgs groups') := by
  have hread : applyAll groups .init = applyAll groups' .init := by
    by_cases hall : ∀ o arg, OptionGroup.value o arg ∈ groups → AcceptableValue o arg
    · have hall' : ∀ o arg, OptionGroup.value o arg ∈ groups' → AcceptableValue o arg :=
        fun o arg hg => hall o arg ((h.mem_iff _).mpr hg)
      obtain ⟨a, ha⟩ := applyAll_isSome_iff.mpr hall
      obtain ⟨a', ha'⟩ := applyAll_isSome_iff.mpr hall'
      have hcollects := h.collects (collects_init.applyAll ha)
      rw [ha, ha', hcollects.unique (collects_init.applyAll ha')]
    · have hnone : ∀ l : List OptionGroup, (∀ g, g ∈ groups ↔ g ∈ l) →
          applyAll l .init = none := by
        intro l hl
        apply Option.eq_none_iff_forall_ne_some.mpr
        intro a ha
        exact hall fun o arg hg => applyAll_isSome_iff.mp ⟨a, ha⟩ o arg ((hl _).mp hg)
      rw [hnone groups fun g => Iff.rfl, hnone groups' h.mem_iff]
  rw [Ebaf.ebafParseArgs, Ebaf.ebafParseArgs, List.tail_cons, List.tail_cons, read_groupArgs,
    read_groupArgs, hread]

/-- **The grammar of the command line.**  An argument vector splits into option groups
in at most one way; it is accepted exactly when it does and the groups are acceptable;
the configuration holds the last value of each option; and the order between groups
that set different fields does not matter. -/
theorem command_line_grammar :
    (∀ groups groups', groupArgs groups = groupArgs groups' → groups = groups') ∧
    (∀ argv, (∃ cfg, ebafParseArgs argv = some cfg) ↔
      ∃ groups, argv.tail = groupArgs groups ∧ Acceptable groups) ∧
    (∀ argv groups cfg, argv.tail = groupArgs groups → ebafParseArgs argv = some cfg →
      Configures groups cfg) ∧
    ∀ name name' groups groups', Reordered groups groups' →
      ebafParseArgs (name :: groupArgs groups) = ebafParseArgs (name' :: groupArgs groups') := by
  refine ⟨?_, ebafParseArgs_isSome_iff, ?_, ?_⟩
  · intro groups groups' h
    exact groupArgs_injective h
  · intro argv groups cfg hgroups h
    exact configures_of_ebafParseArgs hgroups h
  · intro name name' groups groups' h
    exact h.ebafParseArgs name name'

end Ebaf
