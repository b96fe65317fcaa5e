import Ebaf.FramedRoundTrip
import Ebaf.TcTransparent

/-! # Programs on an interface

An interface has one XDP slot and, once it has a `clsact` queueing discipline, a
list of TC filters at ingress and one at egress.  Others may have programs there
already; the loader adds its own.  `Others` is what others have installed, and
the operations are those of libbpf: an attachment with
`XDP_FLAGS_UPDATE_IF_NOEXIST` fails when there is a program, a TC hook is created
once, and destroying it at one attach point removes every filter there.
-/
namespace Ebaf

/-- The packet programs a run can attach. -/
inductive PacketProgram where
  | framed (p : FramedProgram)
  | transparent
  deriving DecidableEq

variable {Ctx : Type}

def PacketProgram.run (K : CryptoKernel Ctx) (e : Env Ctx) : PacketProgram → PacketProg Ctx Unit
  | framed p => p.run K e
  | transparent => tcTransparent K e

/-- The modes in which `attach_xdp` tries to attach. -/
inductive XdpMode where
  | driver | generic
  deriving DecidableEq

/-- `enum bpf_tc_attach_point` -/
inductive AttachPoint where
  | ingress | egress
  deriving DecidableEq

/-- An attached program: one of others, or one this run has attached. -/
inductive Attached (Other : Type) where
  | other (o : Other)
  | ours (p : PacketProgram)

namespace Attached
variable {Other : Type}

/-- The program of this run that is attached, if it is one. -/
def mine : Attached Other → Option PacketProgram
  | ours p => some p
  | other _ => none

/-- It is this program of this run. -/
def is (p : PacketProgram) (a : Attached Other) : Bool := a.mine = some p

end Attached

/-- The programs on an interface. -/
structure Interface (Other : Type) where
  xdp : Option (Attached Other × XdpMode)
  clsact : Bool
  filters : AttachPoint → List (Attached Other)

/-- What others have on the interface; filters need a `clsact`. -/
structure Others (Other : Type) where
  xdp : Option (Other × XdpMode)
  clsact : Bool
  filters : AttachPoint → List Other
  filters_clsact : ∀ p, clsact = false → filters p = []

variable {Other : Type}

/-- The interface before a run. -/
def Others.interface (o : Others Other) : Interface Other where
  xdp := o.xdp.map fun (p, mode) => (.other p, mode)
  clsact := o.clsact
  filters := fun p => (o.filters p).map .other

/-- Nobody else uses the interface. -/
def Others.nobody (Other : Type) : Others Other where
  xdp := none
  clsact := false
  filters := fun _ => []
  filters_clsact := fun _ _ => rfl

/-- A positive error number. -/
abbrev Errno := { n : Nat // 0 < n }

def enoent : Errno := ⟨2, by decide⟩
def ebusy : Errno := ⟨16, by decide⟩
def eexist : Errno := ⟨17, by decide⟩

/-- An error number as a function returns it. -/
def Errno.code (n : Errno) : Int := -(n.1 : Int)

theorem Errno.code_ne_zero (n : Errno) : n.code ≠ 0 := by
  have := n.2
  unfold Errno.code
  omega

namespace Interface
variable (i : Interface Other) (p : PacketProgram) (mode : XdpMode) (point : AttachPoint)

/-- `bpf_xdp_attach(ifindex, prog_fd, mode | XDP_FLAGS_UPDATE_IF_NOEXIST, NULL)` -/
def bpfXdpAttach : Except Errno (Interface Other) :=
  match i.xdp with
  | some (_, mode') => .error (if mode' = mode then ebusy else eexist)
  | none => .ok { i with xdp := some (.ours p, mode) }

/-- `bpf_xdp_detach(ifindex, mode, NULL)` -/
def bpfXdpDetach : Interface Other :=
  match i.xdp with
  | some (a, mode') =>
    if mode' = mode then { i with xdp := none } else { i with xdp := some (a, mode') }
  | none => i

/-- `bpf_tc_hook_create` -/
def bpfTcHookCreate : Except Errno (Interface Other) :=
  if i.clsact = true then .error eexist else .ok { i with clsact := true }

/-- `bpf_tc_attach` -/
def bpfTcAttach : Except Errno (Interface Other) :=
  if i.clsact = false then .error enoent
  else .ok { i with filters := Function.update i.filters point (.ours p :: i.filters point) }

/-- `bpf_tc_detach`: the filter named by its options. -/
def bpfTcDetach : Interface Other :=
  { i with filters := Function.update i.filters point ((i.filters point).eraseP (Attached.is p)) }

/-- `bpf_tc_hook_destroy` at one attach point: all filters there are removed, and
the queueing discipline stays. -/
def bpfTcHookDestroy : Interface Other :=
  { i with filters := Function.update i.filters point [] }

/-- The programs of this run on the receive path, in the order in which a
datagram meets them. -/
def receivePath : List PacketProgram :=
  (i.xdp.toList.map Prod.fst ++ i.filters .ingress).filterMap Attached.mine

/-- The programs of this run on the send path. -/
def sendPath : List PacketProgram :=
  (i.filters .egress).filterMap Attached.mine

end Interface

end Ebaf
