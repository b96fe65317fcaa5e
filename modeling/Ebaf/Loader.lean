import Ebaf.CryptoCtx
import Ebaf.Interface
import Ebaf.UserConfig

/-! # The loader

`ebaf_bpf_start` opens and loads the skeletons, makes the packet programs share
the maps of `create_crypto_ctx`, writes the configuration, has the context
created and only then attaches the packet programs.  Whatever fails, it ends in
`ebaf_bpf_stop`, except for its first two checks.

The loader's state is the kernel's side of it (`LoaderKernel`: the interface and
the maps), the record `rt` it keeps for teardown and the value it returns.  Each
state of the kernel it passes through is recorded.  A run's parameters are the
calls that fail, with their error numbers (`LoadEnv`).
-/
namespace Ebaf
open EarlyExit CStrings

/-- The skeletons: the program that creates contexts, and the packet programs. -/
inductive Skeleton where
  | ctx
  | packet (p : PacketProgram)
  deriving DecidableEq

/-- The maps a skeleton declares. -/
inductive MapName where
  | config | ctx | stats | events
  deriving DecidableEq

/-- The loader's calls that may fail. -/
inductive LoadCall where
  | ifNametoindex
  | skeletonOpen (k : Skeleton)
  | skeletonLoad (k : Skeleton)
  | reuseFd (k : Skeleton) (m : MapName)
  | configUpdate
  | testRun
  | xdpAttach (mode : XdpMode)
  | tcHookCreate
  | tcAttach
  | ringBufferNew
  deriving DecidableEq

/-- The kernel's answers in one run of the loader. -/
structure LoadEnv (Ctx : Type) where
  fails : LoadCall → Option Errno
  /-- The index `if_nametoindex` finds. -/
  ifindex : { n : Nat // 0 < n }
  /-- How `create_crypto_ctx` runs. -/
  ctxEnv : CtxEnv Ctx
  /-- Whether `bpf_tc_detach` removes the filter or refuses its options. -/
  detaches : Bool

/-- The answers when no call fails; a context is the parameters it is made from. -/
def LoadEnv.smooth : LoadEnv BpfCryptoParams where
  fails := fun _ => none
  ifindex := ⟨2, Nat.two_pos⟩
  ctxEnv := ⟨true, true, .ok⟩
  detaches := true

/-- What the loader changes in the kernel.  A map is named by the skeleton whose
loading created it; `refs` tells which one a skeleton's map name refers to. -/
structure LoaderKernel (Other Ctx : Type) where
  interface : Interface Other
  opened : Skeleton → Bool
  refs : Skeleton → MapName → Skeleton
  configs : Skeleton → EbafCryptoConfig
  slots : Skeleton → Option Ctx

/-- `struct ebaf_bpf_runtime`; a map's descriptor is the skeleton that created
the map. -/
structure EbafBpfRuntime where
  ifindex : Nat
  xdpProg : Option PacketProgram
  xdpFlags : Option XdpMode
  statsMap : Option Skeleton
  configMap : Option Skeleton
  eventRing : Bool
  /-- `tc_hook` and `tc_opts`, when `tc_attached`. -/
  tc : Option (AttachPoint × PacketProgram)
  deriving DecidableEq

def EbafBpfRuntime.zero : EbafBpfRuntime where
  ifindex := 0
  xdpProg := none
  xdpFlags := none
  statsMap := none
  configMap := none
  eventRing := false
  tc := none

/-- The state of the loader. -/
structure LoaderState (Other Ctx : Type) where
  kernel : LoaderKernel Other Ctx
  rt : EbafBpfRuntime
  err : Int
  /-- The states the kernel has passed through. -/
  trace : List (LoaderKernel Other Ctx)

abbrev LoaderProg (Other Ctx : Type) := Prog (LoaderState Other Ctx)

variable {Other Ctx : Type}

/-! ## Steps -/

/-- A change of the kernel. -/
def onKernel (g : LoaderKernel Other Ctx → LoaderKernel Other Ctx) : LoaderProg Other Ctx Unit :=
  Prog.modify fun s => { s with kernel := g s.kernel, trace := s.trace ++ [g s.kernel] }

/-- A change of the interface. -/
def onInterface (g : Interface Other → Interface Other) : LoaderProg Other Ctx Unit :=
  onKernel fun k => { k with interface := g k.interface }

def onRuntime (g : EbafBpfRuntime → EbafBpfRuntime) : LoaderProg Other Ctx Unit :=
  Prog.modify fun s => { s with rt := g s.rt }

/-- `err = n;` -/
def setErr (n : Int) : LoaderProg Other Ctx Unit := Prog.modify fun s => { s with err := n }

/-- `..__open` -/
def skeletonOpen (k : Skeleton) : LoaderProg Other Ctx Unit :=
  onKernel fun kernel => { kernel with
    opened := Function.update kernel.opened k true
    refs := Function.update kernel.refs k fun _ => k }

/-- `bpf_map__reuse_fd`: the map of `k` becomes the one of `source`. -/
def reuseFd (k : Skeleton) (m : MapName) (source : Skeleton) : LoaderProg Other Ctx Unit :=
  onKernel fun kernel => { kernel with
    refs := Function.update kernel.refs k
      (Function.update (kernel.refs k) m (kernel.refs source m)) }

/-- An array map's entry before it is written. -/
def EbafCryptoConfig.zero : EbafCryptoConfig where
  key := List.replicate ebafCryptoMaxKeyBytes 0
  keyLen := 0
  action := 0
  algo := 0
  flags := 0
  udpPort := 0

/-- `..__load`: the maps that are not reused are created, zeroed. -/
def skeletonLoad (k : Skeleton) : LoaderProg Other Ctx Unit :=
  onKernel fun kernel => { kernel with
    configs := if kernel.refs k .config = k then Function.update kernel.configs k .zero
      else kernel.configs
    slots := if kernel.refs k .ctx = k then Function.update kernel.slots k none
      else kernel.slots }

/-- `bpf_map_update_elem` on `crypto_config` -/
def configUpdate (k : Skeleton) (config : EbafCryptoConfig) : LoaderProg Other Ctx Unit :=
  onKernel fun kernel => { kernel with
    configs := Function.update kernel.configs (kernel.refs k .config) config }

/-- `create_crypto_ctx` on the maps of its skeleton. -/
def LoaderKernel.createCryptoCtx (e : CtxEnv Ctx) (kernel : LoaderKernel Other Ctx) :
    CtxState Ctx :=
  (Ebaf.createCryptoCtx e).exec
    { config := kernel.configs (kernel.refs .ctx .config)
      slot := kernel.slots (kernel.refs .ctx .ctx)
      created := []
      released := []
      retval := 0 }

/-- `bpf_prog_test_run_opts`: the value the program returns. -/
def testRun (e : CtxEnv Ctx) : LoaderProg Other Ctx Int := do
  let s ← Prog.get
  let done := s.kernel.createCryptoCtx e
  onKernel fun kernel => { kernel with
    slots := Function.update kernel.slots (kernel.refs .ctx .ctx) done.slot }
  pure done.retval

/-! ## Stopping -/

/-- Lines 317 to 318: the XDP program is detached. -/
def stopXdp (rt : EbafBpfRuntime) : LoaderProg Other Ctx Unit :=
  match rt.xdpFlags with
  | some mode => Prog.onlyIf (0 < rt.ifindex) (onInterface fun i => i.bpfXdpDetach mode)
  | none => pure ()

/-- Lines 320 to 323: the TC program is detached and the hook destroyed. -/
def stopTc (e : LoadEnv Ctx) (rt : EbafBpfRuntime) : LoaderProg Other Ctx Unit :=
  match rt.tc with
  | some (point, p) => do
    Prog.onlyIf (e.detaches = true) (onInterface fun i => i.bpfTcDetach p point)
    -- the runtime does not record whether this run has created the hook
    onInterface fun i => i.bpfTcHookDestroy point
  | none => pure ()

/-- `ebaf_bpf_stop` -/
def ebafBpfStop (e : LoadEnv Ctx) : LoaderProg Other Ctx Unit := do
  let s ← Prog.get
  stopXdp s.rt
  stopTc e s.rt
  onKernel fun kernel => { kernel with opened := fun _ => false }
  onRuntime fun _ => .zero

/-! ## Starting -/

/-- `goto err_out;` with `err` set. -/
def errOut (e : LoadEnv Ctx) (err : Int) : LoaderProg Other Ctx Unit := do
  setErr err
  ebafBpfStop e

/-- A call that may fail: `k` is what the function does with the error before it
returns. -/
def callOr (e : LoadEnv Ctx) (call : LoadCall) (k : Int → LoaderProg Other Ctx Unit) :
    LoaderProg Other Ctx Unit :=
  match e.fails call with
  | some n => k n.code >>= fun _ => Prog.stop
  | none => pure ()

/-- A change of the interface that may fail: the error the function sees, 0 if
none. -/
def tryInterface (e : LoadEnv Ctx) (call : LoadCall)
    (g : Interface Other → Except Errno (Interface Other)) : LoaderProg Other Ctx Int := do
  let s ← Prog.get
  match e.fails call with
  | some n => pure n.code
  | none =>
    match g s.kernel.interface with
    | .error n => pure n.code
    | .ok i =>
      onInterface fun _ => i
      pure 0

/-- `attach_xdp`: in driver mode, or else in generic mode. -/
def attachXdp (e : LoadEnv Ctx) (p : PacketProgram) : LoaderProg Other Ctx Int := do
  let err ← tryInterface e (.xdpAttach .driver) fun i => i.bpfXdpAttach p .driver
  if err = 0 then
    onRuntime fun rt => { rt with xdpFlags := some .driver }
    pure 0
  else
    let err ← tryInterface e (.xdpAttach .generic) fun i => i.bpfXdpAttach p .generic
    if err = 0 then
      onRuntime fun rt => { rt with xdpFlags := some .generic }
      pure 0
    else
      pure err

/-- `attach_tc` -/
def attachTc (e : LoadEnv Ctx) (p : PacketProgram) (point : AttachPoint) :
    LoaderProg Other Ctx Int := do
  let err ← tryInterface e .tcHookCreate fun i => i.bpfTcHookCreate
  if err ≠ 0 ∧ err ≠ eexist.code then
    pure err
  else
    -- known in this function only
    let hookCreated := err = 0
    let err ← tryInterface e .tcAttach fun i => i.bpfTcAttach p point
    if err ≠ 0 then
      Prog.onlyIf hookCreated (onInterface fun i => i.bpfTcHookDestroy point)
      pure err
    else
      onRuntime fun rt => { rt with tc := some (point, p) }
      pure 0

/-- `cfg->hook == EBAF_HOOK_XDP || cfg->hook == EBAF_HOOK_BOTH` -/
def Hook.usesXdp : Hook → Bool
  | xdp | both => true
  | tc => false

/-- `cfg->hook == EBAF_HOOK_TC || cfg->hook == EBAF_HOOK_BOTH` -/
def Hook.usesTc : Hook → Bool
  | tc | both => true
  | xdp => false

namespace EbafUserConfig
variable (cfg : EbafUserConfig)

/-- `cfg->crypto.flags & EBAF_CRYPTO_F_TRANSPARENT` -/
def transparent : Bool := cfg.crypto.flags &&& ebafCryptoFTransparent ≠ 0

/-- The TC program for a configuration. -/
def tcProgram : PacketProgram := if cfg.transparent then .transparent else .framed .tc

/-- Where the TC program is attached: decryption at ingress, anything else at
egress, unless an option says otherwise. -/
def attachPoint : AttachPoint :=
  match cfg.tcAttach with
  | .ingress => .ingress
  | .egress => .egress
  | .auto => if cfg.crypto.action = ebafActionDecrypt then .ingress else .egress

end EbafUserConfig

def xdpSkeleton : Skeleton := .packet (.framed .xdp)

/-- The maps of a packet program become those of other skeletons, one after the
other. -/
def reuseAll (e : LoadEnv Ctx) (p : PacketProgram) :
    List (MapName × Skeleton) → LoaderProg Other Ctx Unit
  | [] => pure ()
  | (m, source) :: rest => do
    callOr e (.reuseFd (.packet p) m) (errOut e)
    reuseFd (.packet p) m source
    reuseAll e p rest

/-- A packet program is opened, shares maps, and is loaded. -/
def loadSkeleton (e : LoadEnv Ctx) (p : PacketProgram) (reused : List (MapName × Skeleton)) :
    LoaderProg Other Ctx Unit := do
  callOr e (.skeletonOpen (.packet p)) (errOut e)
  skeletonOpen (.packet p)
  reuseAll e p reused
  callOr e (.skeletonLoad (.packet p)) (errOut e)
  skeletonLoad (.packet p)

/-- The maps the XDP program shares, and those the TC program does. -/
def xdpReused : List (MapName × Skeleton) := [(.config, .ctx), (.ctx, .ctx)]

def tcReused : List (MapName × Skeleton) :=
  [(.config, .ctx), (.ctx, .ctx), (.stats, xdpSkeleton), (.events, xdpSkeleton)]

/-- Lines 251 to 267: the configuration is written and the context created. -/
def configure (e : LoadEnv Ctx) (config : EbafCryptoConfig) : LoaderProg Other Ctx Unit := do
  onRuntime fun rt => { rt with configMap := some .ctx }
  callOr e .configUpdate (errOut e)
  configUpdate .ctx config
  callOr e .testRun (errOut e)
  let retval ← testRun e.ctxEnv
  Prog.exitIf (retval ≠ 0) (errOut e retval)

/-- Lines 269 to 296: the packet programs are attached. -/
def attach (e : LoadEnv Ctx) (cfg : EbafUserConfig) : LoaderProg Other Ctx Unit := do
  onRuntime fun rt => { rt with xdpProg := some (.framed .xdp) }
  Prog.onlyIf (cfg.hook.usesXdp = true) do
    let err ← attachXdp e (.framed .xdp)
    Prog.exitIf (err ≠ 0) (errOut e err)
  Prog.onlyIf (cfg.hook.usesTc = true) do
    let err ← attachTc e cfg.tcProgram cfg.attachPoint
    Prog.exitIf (err ≠ 0) (errOut e err)

/-- `ebaf_bpf_start` -/
def ebafBpfStart (e : LoadEnv Ctx) (cfg : EbafUserConfig) : LoaderProg Other Ctx Unit := do
  onRuntime fun _ => .zero
  -- these two return without the teardown
  callOr e .ifNametoindex setErr
  onRuntime fun rt => { rt with ifindex := e.ifindex }
  callOr e (.skeletonOpen .ctx) setErr
  skeletonOpen .ctx
  callOr e (.skeletonLoad .ctx) (errOut e)
  skeletonLoad .ctx
  loadSkeleton e (.framed .xdp) xdpReused
  Prog.onlyIf (cfg.hook.usesTc = true) (loadSkeleton e cfg.tcProgram tcReused)
  configure e cfg.crypto
  attach e cfg
  onRuntime fun rt => { rt with statsMap := some xdpSkeleton }
  callOr e .ringBufferNew (errOut e)
  onRuntime fun rt => { rt with eventRing := true }
  setErr 0

/-- A run of `main`: when the start succeeds, it is stopped in the end. -/
def ebafRun (e : LoadEnv Ctx) (cfg : EbafUserConfig) : LoaderProg Other Ctx Unit := do
  ebafBpfStart e cfg
  ebafBpfStop e

/-- The state before a run: no skeleton is open. -/
def LoaderState.initial (o : Others Other) : LoaderState Other Ctx where
  kernel :=
    { interface := o.interface
      opened := fun _ => false
      refs := fun k _ => k
      configs := fun _ => .zero
      slots := fun _ => none }
  rt := .zero
  err := 0
  trace := []

/-! ## A known configuration -/

/-- What an argument vector without further options asks for. -/
def knownUserConfig (action : UInt32) (hook : Hook) : EbafUserConfig where
  iface := lit "eth0"
  crypto := knownConfig action
  hook := hook
  tcAttach := .auto
  statsIntervalSec := 1
  durationSec := 0
  printEvents := false
  outputJsonl := false

def knownArgv (mode hook : CString) : List CString :=
  [lit "ebaf", lit "--iface", lit "eth0", lit "--mode", mode, lit "--hook", hook, lit "--key",
    lit "2b7e151628aed2a6abf7158809cf4f3c"]

end Ebaf
