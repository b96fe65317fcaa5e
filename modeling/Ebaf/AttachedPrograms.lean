import Ebaf.LoaderRun
import Ebaf.CipherCalls

/-! # The programs a start attaches

After a successful start, a received datagram meets the XDP program first and
then the TC program, if it is attached at ingress; a sent datagram meets the TC
program, if it is attached at egress.  All of them read the configuration the
loader has written and the context it has had created (`Running.env`), so that
what happens to a datagram is what the programs' specifications say for that
configuration.
-/
namespace Ebaf
open ByteWindow EarlyExit

variable {Other Ctx : Type}

/-! ## From the loader to the packets -/

/-- The answers of the kernel to an attached program: the maps are those it
refers to. -/
def LoaderKernel.env (k : LoaderKernel Other Ctx) (p : PacketProgram) (answers : Env Ctx) :
    Env Ctx :=
  { answers with
    config := some (k.configs (k.refs (.packet p) .config))
    slot := some (k.slots (k.refs (.packet p) .ctx)) }

/-- A packet crosses the programs of a path, one after the other. -/
def LoaderKernel.cross (K : CryptoKernel Ctx) (k : LoaderKernel Other Ctx)
    (answers : PacketProgram → Env Ctx) (path : List PacketProgram) (s : PacketState Ctx) :
    PacketState Ctx :=
  path.foldl (fun s p => (p.run K (k.env p (answers p))).exec s) s

/-- The answers of a kernel in which `config` is written and `c` installed. -/
def Env.keyed (config : EbafCryptoConfig) (c : Ctx) (answers : Env Ctx) : Env Ctx :=
  { answers with config := some config, slot := some (some c) }

namespace EbafUserConfig
variable (cfg : EbafUserConfig)

/-- The programs a received datagram meets. -/
def receivePrograms : List PacketProgram :=
  (if cfg.hook.usesXdp then [.framed .xdp] else []) ++
    (if cfg.hook.usesTc ∧ cfg.attachPoint = .ingress then [cfg.tcProgram] else [])

/-- The programs a sent datagram meets. -/
def sendPrograms : List PacketProgram :=
  if cfg.hook.usesTc ∧ cfg.attachPoint = .egress then [cfg.tcProgram] else []

end EbafUserConfig

section Paths
variable {e : LoadEnv Ctx} {cfg : EbafUserConfig} {o : Others Other} {s : LoaderState Other Ctx}

/-- A start that returns 0 is running. -/
theorem running_of_started (h : ((ebafBpfStart e cfg).exec (.initial o)).err = 0) :
    Running e cfg o ((ebafBpfStart e cfg).exec (.initial o)) := by
  let started (s : LoaderState Other Ctx) : Prop := s.err = 0 → Running e cfg o s
  refine Prog.Ensures.exec (E := started) ?_ h
  refine (ebafBpfStart_spec e cfg o).mono (fun _ _ h _ => h.2) ?_
  intro s' hfailed hzero
  exact absurd hzero hfailed.err

/-- Others' programs are none of this run. -/
theorem mine_filters (o : Others Other) (point : AttachPoint) :
    (o.interface.filters point).filterMap Attached.mine = [] := by
  refine List.filterMap_eq_nil_iff.mpr fun a ha => ?_
  obtain ⟨_, -, rfl⟩ := List.mem_map.mp ha
  rfl

/-- A filter of this run in front of others' is the only one. -/
theorem mine_cons (o : Others Other) (p : PacketProgram) (point : AttachPoint) :
    (Attached.ours p :: o.interface.filters point).filterMap Attached.mine = [p] := by
  have hcons := List.filterMap_cons_some (f := Attached.mine) (a := .ours p) (b := p)
    (l := o.interface.filters point) rfl
  rw [hcons, mine_filters]

theorem mine_xdp (o : Others Other) :
    (o.interface.xdp.toList.map Prod.fst).filterMap Attached.mine = [] := by
  rw [Others.interface]
  cases o.xdp <;> rfl

/-- The XDP part of the receive path. -/
theorem receivePath_xdp {i : Interface Other} {rt : EbafBpfRuntime}
    (h : (cfg.hook.usesXdp = true ∧ XdpAttaches e o ∧ ∃ mode,
        i.xdp = some (.ours (.framed .xdp), mode) ∧ rt.xdpFlags = some mode) ∨
      (cfg.hook.usesXdp = false ∧ i.xdp = o.interface.xdp ∧ rt.xdpFlags = none)) :
    (i.xdp.toList.map Prod.fst).filterMap Attached.mine =
      if cfg.hook.usesXdp then [.framed .xdp] else [] := by
  rcases h with ⟨huse, -, mode, hx, -⟩ | ⟨huse, hx, -⟩
  · rw [hx, huse]
    rfl
  · rw [hx, huse, mine_xdp]
    rfl

/-- **The programs a received datagram meets.** -/
theorem Running.receivePath (h : Running e cfg o s) :
    s.kernel.interface.receivePath = cfg.receivePrograms := by
  rw [Interface.receivePath, List.filterMap_append, EbafUserConfig.receivePrograms]
  cases h with
  | xdpOnly huse h =>
    have htc : ¬ (cfg.hook.usesTc = true ∧ cfg.attachPoint = .ingress) := by simp [huse]
    rw [receivePath_xdp h.xdp, h.filters, mine_filters, if_neg htc]
  | withTc h =>
    rw [receivePath_xdp h.xdp, h.filters]
    congr 1
    by_cases hpoint : cfg.attachPoint = .ingress
    · rw [if_pos ⟨h.reached.hook, hpoint⟩, hpoint, Function.update_self, mine_cons]
    · rw [if_neg fun hn => hpoint hn.2, Function.update_of_ne (Ne.symm hpoint), mine_filters]

/-- **The programs a sent datagram meets.** -/
theorem Running.sendPath (h : Running e cfg o s) :
    s.kernel.interface.sendPath = cfg.sendPrograms := by
  rw [Interface.sendPath, EbafUserConfig.sendPrograms]
  cases h with
  | xdpOnly huse h =>
    have htc : ¬ (cfg.hook.usesTc = true ∧ cfg.attachPoint = .egress) := by simp [huse]
    rw [h.filters, mine_filters, if_neg htc]
  | withTc h =>
    rw [h.filters]
    by_cases hpoint : cfg.attachPoint = .egress
    · rw [if_pos ⟨h.reached.hook, hpoint⟩, hpoint, Function.update_self, mine_cons]
    · rw [if_neg fun hn => hpoint hn.2, Function.update_of_ne (Ne.symm hpoint), mine_filters]

theorem Running.configured (h : Running e cfg o s) : Configured e cfg s.kernel := by
  cases h with
  | xdpOnly _ h => exact h.configured
  | withTc h => exact h.configured

/-- The attached programs share the maps. -/
theorem Configured.shares {k : LoaderKernel Other Ctx} (h : Configured e cfg k) {p : PacketProgram}
    (hp : p ∈ cfg.receivePrograms ∨ p ∈ cfg.sendPrograms) : Shares k p := by
  have htc : ∀ {point : AttachPoint},
      p ∈ (if cfg.hook.usesTc = true ∧ cfg.attachPoint = point then [cfg.tcProgram] else []) →
        Shares k p := by
    intro point hmem
    split at hmem
    · rename_i hcond
      rw [List.mem_singleton.mp hmem]
      exact h.tc hcond.1
    · cases hmem
  rcases hp with hp | hp
  · rcases List.mem_append.mp hp with hp | hp
    · split at hp
      · rw [List.mem_singleton.mp hp]
        exact h.xdp
      · cases hp
    · exact htc hp
  · exact htc hp

/-- **The attached programs read the written configuration and the created
context.** -/
theorem Running.env (h : Running e cfg o s) : ∃ c, Creates e.ctxEnv cfg.crypto c ∧
    ∀ p, (p ∈ cfg.receivePrograms ∨ p ∈ cfg.sendPrograms) → ∀ answers,
      s.kernel.env p answers = answers.keyed cfg.crypto c := by
  have hc := h.configured
  obtain ⟨c, hcreates, hslot⟩ := hc.slot
  refine ⟨c, hcreates, fun p hp answers => ?_⟩
  have hshares := hc.shares hp
  rw [LoaderKernel.env, hshares.config, hshares.ctx, hc.config, hslot]
  rfl

end Paths

end Ebaf
