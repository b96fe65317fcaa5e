import Ebaf.AttachedPrograms
import Ebaf.MissingContext

/-! # Every moment of a run of the loader

A packet can arrive between any two steps of the loader.  Up to the attachments
the interface is as others left it (`Quiet`); from then on the maps do not change
any more, and all programs that are attached share them (`Settled`).  So a program
that has been attached reads the written configuration and the created context at
that moment and at every later one, wherever a start fails and however little of
the teardown works.
-/
namespace Ebaf
open EarlyExit

variable {Other Ctx : Type} {e : LoadEnv Ctx} {cfg : EbafUserConfig} {o : Others Other}
  {s : LoaderState Other Ctx} {i i' : Interface Other} {p q : PacketProgram} {mode : XdpMode}
  {point : AttachPoint}

/-! ## Attached programs -/

/-- A program of this run is attached. -/
def Interface.HasAttached (i : Interface Other) (p : PacketProgram) : Prop :=
  (∃ mode, i.xdp = some (.ours p, mode)) ∨ ∃ point, Attached.ours p ∈ i.filters point

theorem Others.not_hasAttached (o : Others Other) (p : PacketProgram) :
    ¬ o.interface.HasAttached p := by
  rintro (⟨mode, h⟩ | ⟨point, h⟩)
  · obtain ⟨_, -, heq⟩ := Option.map_eq_some_iff.mp h
    cases heq
  · obtain ⟨_, -, heq⟩ := List.mem_map.mp h
    cases heq

/-! What each operation of libbpf adds, if anything. -/

theorem hasAttached_xdpAttach (hok : i.bpfXdpAttach p mode = .ok i') (h : i'.HasAttached q) :
    i.HasAttached q ∨ q = p := by
  obtain ⟨-, rfl⟩ := bpfXdpAttach_ok hok
  rcases h with ⟨_, h⟩ | h
  · cases h
    exact Or.inr rfl
  · exact Or.inl (Or.inr h)

theorem hasAttached_xdpDetach (h : (i.bpfXdpDetach mode).HasAttached q) : i.HasAttached q := by
  rw [Interface.bpfXdpDetach] at h
  cases hx : i.xdp with
  | none =>
    rw [hx] at h
    exact h
  | some a =>
    rw [hx] at h
    dsimp only at h
    split at h
    · rcases h with ⟨_, h⟩ | h
      · cases h
      · exact Or.inr h
    · rcases h with ⟨mode, h⟩ | h
      · exact Or.inl ⟨mode, hx.trans h⟩
      · exact Or.inr h

theorem hasAttached_tcHookCreate (hok : i.bpfTcHookCreate = .ok i') (h : i'.HasAttached q) :
    i.HasAttached q := by
  obtain ⟨-, rfl⟩ := bpfTcHookCreate_ok hok
  exact h

/-- A program in the filters of one point, after these have changed. -/
theorem hasAttached_update {filters : List (Attached Other)}
    (h : { i with filters := Function.update i.filters point filters }.HasAttached q) :
    i.HasAttached q ∨ .ours q ∈ filters := by
  rcases h with h | ⟨point', h⟩
  · exact Or.inl (Or.inl h)
  · by_cases hpoint : point' = point
    · subst hpoint
      dsimp only at h
      rw [Function.update_self] at h
      exact Or.inr h
    · dsimp only at h
      rw [Function.update_of_ne hpoint] at h
      exact Or.inl (Or.inr ⟨point', h⟩)

theorem hasAttached_tcAttach (hok : i.bpfTcAttach p point = .ok i') (h : i'.HasAttached q) :
    i.HasAttached q ∨ q = p := by
  obtain ⟨-, rfl⟩ := bpfTcAttach_ok hok
  rcases hasAttached_update h with h | h
  · exact Or.inl h
  · rcases List.mem_cons.mp h with heq | h
    · cases heq
      exact Or.inr rfl
    · exact Or.inl (Or.inr ⟨point, h⟩)

theorem hasAttached_tcDetach (h : (i.bpfTcDetach p point).HasAttached q) : i.HasAttached q := by
  rcases hasAttached_update h with h | h
  · exact h
  · exact Or.inr ⟨point, List.mem_of_mem_eraseP h⟩

theorem hasAttached_tcHookDestroy (h : (i.bpfTcHookDestroy point).HasAttached q) :
    i.HasAttached q := by
  rcases hasAttached_update h with h | h
  · exact h
  · cases h

/-! ## Before the attachments -/

/-- Nothing has been attached so far, and the record for the teardown says so. -/
structure Quiet (o : Others Other) (s : LoaderState Other Ctx) : Prop where
  moments : ∀ k ∈ s.trace, k.interface = o.interface
  interface : s.kernel.interface = o.interface
  xdpFlags : s.rt.xdpFlags = none
  tc : s.rt.tc = none

theorem quiet_initial (o : Others Other) : Quiet o (.initial o : LoaderState Other Ctx) :=
  ⟨fun _ hk => absurd hk List.not_mem_nil, rfl, rfl, rfl⟩

theorem keeps_quiet_onKernel {g : LoaderKernel Other Ctx → LoaderKernel Other Ctx}
    (hg : ∀ k, (g k).interface = k.interface) : (onKernel g).Keeps (Quiet o) := by
  refine Prog.keeps_modify ?_
  intro s hs
  refine ⟨?_, (hg _).trans hs.interface, hs.xdpFlags, hs.tc⟩
  intro k hk
  rcases List.mem_append.mp hk with hold | hnew
  · exact hs.moments k hold
  · rw [List.mem_singleton.mp hnew, hg, hs.interface]

theorem keeps_quiet_onRuntime {g : EbafBpfRuntime → EbafBpfRuntime}
    (hg : ∀ rt, rt.xdpFlags = none → rt.tc = none → (g rt).xdpFlags = none ∧ (g rt).tc = none) :
    (onRuntime g : LoaderProg Other Ctx Unit).Keeps (Quiet o) := by
  refine Prog.keeps_modify ?_
  intro s hs
  obtain ⟨hx, ht⟩ := hg s.rt hs.xdpFlags hs.tc
  exact ⟨hs.moments, hs.interface, hx, ht⟩

theorem keeps_quiet_setErr {n : Int} : (setErr n : LoaderProg Other Ctx Unit).Keeps (Quiet o) :=
  Prog.keeps_modify fun _ hs => ⟨hs.moments, hs.interface, hs.xdpFlags, hs.tc⟩

theorem keeps_callOr {I : LoaderState Other Ctx → Prop} {call : LoadCall}
    {k : Int → LoaderProg Other Ctx Unit} (hk : ∀ n, (k n).Keeps I) :
    (callOr e call k).Keeps I := by
  rw [Ebaf.callOr]
  cases e.fails call with
  | none => exact Prog.keeps_pure
  | some n => exact (hk n.code).bind fun _ => Prog.keeps_stop

/-- There is nothing for a teardown to take off. -/
theorem keeps_quiet_stop : (ebafBpfStop e : LoaderProg Other Ctx Unit).Keeps (Quiet o) := by
  intro s hs
  refine Prog.ensures_bind.mpr (Prog.ensures_get.mpr ?_)
  rw [stopXdp, stopTc, hs.xdpFlags, hs.tc]
  have rest : (do
      onKernel fun kernel => { kernel with opened := fun _ => false }
      onRuntime fun _ => .zero : LoaderProg Other Ctx Unit).Keeps (Quiet o) :=
    (keeps_quiet_onKernel (by intro _; rfl)).bind fun _ =>
      keeps_quiet_onRuntime (by intro _ _ _; exact ⟨rfl, rfl⟩)
  exact rest s hs

theorem keeps_quiet_errOut {n : Int} : (errOut e n : LoaderProg Other Ctx Unit).Keeps (Quiet o) :=
  keeps_quiet_setErr.bind fun _ => keeps_quiet_stop

theorem keeps_quiet_reuseAll (reused : List (MapName × Skeleton)) :
    (reuseAll e p reused : LoaderProg Other Ctx Unit).Keeps (Quiet o) := by
  induction reused with
  | nil => exact Prog.keeps_pure
  | cons x rest ih =>
    refine (keeps_callOr fun _ => keeps_quiet_errOut).bind fun _ => ?_
    exact (keeps_quiet_onKernel (by intro _; rfl)).bind fun _ => ih

theorem keeps_quiet_loadSkeleton {reused : List (MapName × Skeleton)} :
    (loadSkeleton e p reused : LoaderProg Other Ctx Unit).Keeps (Quiet o) := by
  refine (keeps_callOr fun _ => keeps_quiet_errOut).bind fun _ => ?_
  refine (keeps_quiet_onKernel (by intro _; rfl)).bind fun _ => ?_
  refine (keeps_quiet_reuseAll reused).bind fun _ => ?_
  refine (keeps_callOr fun _ => keeps_quiet_errOut).bind fun _ => ?_
  exact keeps_quiet_onKernel (by intro _; rfl)

theorem keeps_quiet_configure {config : EbafCryptoConfig} :
    (configure e config : LoaderProg Other Ctx Unit).Keeps (Quiet o) := by
  refine (keeps_quiet_onRuntime (by intro _ hx ht; exact ⟨hx, ht⟩)).bind fun _ => ?_
  refine (keeps_callOr fun _ => keeps_quiet_errOut).bind fun _ => ?_
  refine (keeps_quiet_onKernel (by intro _; rfl)).bind fun _ => ?_
  refine (keeps_callOr fun _ => keeps_quiet_errOut).bind fun _ => ?_
  refine Prog.Keeps.bind ?_ fun retval => keeps_quiet_errOut.exitIf
  refine Prog.keeps_get.bind fun s => ?_
  exact (keeps_quiet_onKernel (by intro _; rfl)).bind fun _ => Prog.keeps_pure

/-- **The preparations are quiet.** -/
theorem keeps_quiet_prepareStart :
    (prepareStart e cfg : LoaderProg Other Ctx Unit).Keeps (Quiet o) := by
  refine (keeps_quiet_onRuntime (by intro _ _ _; exact ⟨rfl, rfl⟩)).bind fun _ => ?_
  refine (keeps_callOr fun _ => keeps_quiet_setErr).bind fun _ => ?_
  refine (keeps_quiet_onRuntime (by intro _ hx ht; exact ⟨hx, ht⟩)).bind fun _ => ?_
  refine (keeps_callOr fun _ => keeps_quiet_setErr).bind fun _ => ?_
  refine (keeps_quiet_onKernel (by intro _; rfl)).bind fun _ => ?_
  refine (keeps_callOr fun _ => keeps_quiet_errOut).bind fun _ => ?_
  refine (keeps_quiet_onKernel (by intro _; rfl)).bind fun _ => ?_
  refine keeps_quiet_loadSkeleton.bind fun _ => ?_
  refine (Prog.Keeps.onlyIf fun _ => keeps_quiet_loadSkeleton).bind fun _ => ?_
  exact keeps_quiet_configure

/-! ## From the attachments on -/

/-- The maps are filled, and what is attached shares them. -/
structure Ready (e : LoadEnv Ctx) (cfg : EbafUserConfig) (k : LoaderKernel Other Ctx) : Prop where
  configured : Configured e cfg k
  programs : ∀ p, k.interface.HasAttached p →
    p = .framed .xdp ∨ cfg.hook.usesTc = true ∧ p = cfg.tcProgram

/-- The moments of a run: quiet ones first, and then such that the maps are filled. -/
def Unfolds (e : LoadEnv Ctx) (cfg : EbafUserConfig) (o : Others Other)
    (moments : List (LoaderKernel Other Ctx)) : Prop :=
  ∃ quiet ready, moments = quiet ++ ready ∧ (∀ k ∈ quiet, k.interface = o.interface) ∧
    ∀ k ∈ ready, Ready e cfg k

/-- The programs can be attached, or taken off again. -/
structure Settled (e : LoadEnv Ctx) (cfg : EbafUserConfig) (o : Others Other)
    (s : LoaderState Other Ctx) : Prop where
  moments : Unfolds e cfg o s.trace
  ready : Ready e cfg s.kernel

theorem Quiet.unfolds (h : Quiet o s) : Unfolds e cfg o s.trace :=
  ⟨s.trace, [], (List.append_nil _).symm, h.moments, fun _ hk => absurd hk List.not_mem_nil⟩

/-- **Once the context is created, the run has settled.** -/
theorem Quiet.settled (h : Quiet o s) (hc : Configured e cfg s.kernel) : Settled e cfg o s := by
  refine ⟨h.unfolds, hc, ?_⟩
  intro p hp
  rw [h.interface] at hp
  exact absurd hp (o.not_hasAttached p)

/-- A step to a state in which the maps are filled. -/
theorem Settled.moves (hs : Settled e cfg o s) {k : LoaderKernel Other Ctx} (hk : Ready e cfg k) :
    Settled e cfg o { s with kernel := k, trace := s.trace ++ [k] } := by
  obtain ⟨quiet, ready, htrace, hquiet, hready⟩ := hs.moments
  refine ⟨⟨quiet, ready ++ [k], ?_, hquiet, ?_⟩, hk⟩
  · show s.trace ++ [k] = _
    rw [htrace, List.append_assoc]
  · intro k' hk'
    rcases List.mem_append.mp hk' with hold | hnew
    · exact hready k' hold
    · rw [List.mem_singleton.mp hnew]
      exact hk

theorem keeps_settled_onKernel {g : LoaderKernel Other Ctx → LoaderKernel Other Ctx}
    (hg : ∀ k, Ready e cfg k → Ready e cfg (g k)) : (onKernel g).Keeps (Settled e cfg o) :=
  Prog.keeps_modify fun _ hs => hs.moves (hg _ hs.ready)

/-- A change of the interface that attaches nothing new. -/
theorem Ready.interface {k : LoaderKernel Other Ctx} (h : Ready e cfg k)
    (hi : ∀ q, i.HasAttached q → k.interface.HasAttached q ∨
      q = .framed .xdp ∨ cfg.hook.usesTc = true ∧ q = cfg.tcProgram) :
    Ready e cfg { k with interface := i } := by
  refine ⟨h.configured.congr rfl rfl rfl, ?_⟩
  intro q hq
  rcases hi q hq with hold | hnew
  · exact h.programs q hold
  · exact hnew

theorem keeps_settled_onInterface {g : Interface Other → Interface Other}
    (hg : ∀ i q, (g i).HasAttached q → i.HasAttached q) :
    (onInterface g : LoaderProg Other Ctx Unit).Keeps (Settled e cfg o) :=
  keeps_settled_onKernel fun _ hk => hk.interface fun q hq => Or.inl (hg _ q hq)

theorem keeps_settled_onRuntime {g : EbafBpfRuntime → EbafBpfRuntime} :
    (onRuntime g : LoaderProg Other Ctx Unit).Keeps (Settled e cfg o) :=
  Prog.keeps_modify fun _ hs => ⟨hs.moments, hs.ready⟩

theorem keeps_settled_setErr {n : Int} :
    (setErr n : LoaderProg Other Ctx Unit).Keeps (Settled e cfg o) :=
  Prog.keeps_modify fun _ hs => ⟨hs.moments, hs.ready⟩

theorem keeps_settled_tryInterface {call : LoadCall}
    {g : Interface Other → Except Errno (Interface Other)}
    (hg : ∀ i i' q, g i = .ok i' → i'.HasAttached q →
      i.HasAttached q ∨ q = .framed .xdp ∨ cfg.hook.usesTc = true ∧ q = cfg.tcProgram) :
    (tryInterface e call g : LoaderProg Other Ctx Int).Keeps (Settled e cfg o) := by
  intro s hs
  refine ensures_tryInterface (fun n _ => hs) fun i _ hok => ?_
  exact hs.moves (hs.ready.interface fun q hq => hg _ _ q hok hq)

theorem keeps_settled_attachXdp :
    (attachXdp e (.framed .xdp) : LoaderProg Other Ctx Int).Keeps (Settled e cfg o) := by
  have tried : ∀ mode, (tryInterface e (.xdpAttach mode) fun i =>
      i.bpfXdpAttach (.framed .xdp) mode : LoaderProg Other Ctx Int).Keeps (Settled e cfg o) := by
    intro mode
    refine keeps_settled_tryInterface fun i i' q hok hq => ?_
    rcases hasAttached_xdpAttach hok hq with hold | rfl
    · exact Or.inl hold
    · exact Or.inr (Or.inl rfl)
  refine (tried .driver).bind fun err => ?_
  split
  · exact keeps_settled_onRuntime.bind fun _ => Prog.keeps_pure
  refine (tried .generic).bind fun err => ?_
  split
  · exact keeps_settled_onRuntime.bind fun _ => Prog.keeps_pure
  · exact Prog.keeps_pure

theorem keeps_settled_attachTc (huse : cfg.hook.usesTc = true) :
    (attachTc e cfg.tcProgram point : LoaderProg Other Ctx Int).Keeps (Settled e cfg o) := by
  refine (keeps_settled_tryInterface fun i i' q hok hq => ?_).bind fun err => ?_
  · exact Or.inl (hasAttached_tcHookCreate hok hq)
  split
  · exact Prog.keeps_pure
  refine (keeps_settled_tryInterface fun i i' q hok hq => ?_).bind fun err => ?_
  · rcases hasAttached_tcAttach hok hq with hold | rfl
    · exact Or.inl hold
    · exact Or.inr (Or.inr ⟨huse, rfl⟩)
  split
  · refine (Prog.Keeps.onlyIf fun _ => ?_).bind fun _ => Prog.keeps_pure
    exact keeps_settled_onInterface fun i q hq => hasAttached_tcHookDestroy hq
  · exact keeps_settled_onRuntime.bind fun _ => Prog.keeps_pure

/-- **A teardown takes programs off, and leaves the maps alone.** -/
theorem keeps_settled_stop :
    (ebafBpfStop e : LoaderProg Other Ctx Unit).Keeps (Settled e cfg o) := by
  refine Prog.keeps_get.bind fun s => ?_
  refine Prog.Keeps.bind ?_ fun _ => Prog.Keeps.bind ?_ fun _ => ?_
  · rw [stopXdp]
    cases s.rt.xdpFlags with
    | none => exact Prog.keeps_pure
    | some mode =>
      exact .onlyIf fun _ => keeps_settled_onInterface fun i q hq => hasAttached_xdpDetach hq
  · rw [stopTc]
    cases s.rt.tc with
    | none => exact Prog.keeps_pure
    | some tc =>
      refine Prog.Keeps.bind (.onlyIf fun _ => ?_) fun _ => ?_
      · exact keeps_settled_onInterface fun i q hq => hasAttached_tcDetach hq
      · exact keeps_settled_onInterface fun i q hq => hasAttached_tcHookDestroy hq
  · refine Prog.Keeps.bind (keeps_settled_onKernel ?_) fun _ => keeps_settled_onRuntime
    intro k hk
    exact ⟨hk.configured.congr rfl rfl rfl, hk.programs⟩

theorem keeps_settled_errOut {n : Int} :
    (errOut e n : LoaderProg Other Ctx Unit).Keeps (Settled e cfg o) :=
  keeps_settled_setErr.bind fun _ => keeps_settled_stop

theorem keeps_settled_finishStart :
    (finishStart e cfg : LoaderProg Other Ctx Unit).Keeps (Settled e cfg o) := by
  refine Prog.Keeps.bind ?_ fun _ => ?_
  · refine keeps_settled_onRuntime.bind fun _ => ?_
    refine (Prog.Keeps.onlyIf fun _ => ?_).bind fun _ => Prog.Keeps.onlyIf fun huse => ?_
    · exact keeps_settled_attachXdp.bind fun err => keeps_settled_errOut.exitIf
    · exact (keeps_settled_attachTc huse).bind fun err => keeps_settled_errOut.exitIf
  · refine keeps_settled_onRuntime.bind fun _ => ?_
    refine (keeps_callOr fun _ => keeps_settled_errOut).bind fun _ => ?_
    exact keeps_settled_onRuntime.bind fun _ => keeps_settled_setErr

/-! ## The whole run -/

/-- The states of the kernel between the steps of a run, from before it to its end. -/
def moments (e : LoadEnv Ctx) (cfg : EbafUserConfig) (o : Others Other) :
    List (LoaderKernel Other Ctx) :=
  (LoaderState.initial o).kernel :: ((ebafRun e cfg).exec (.initial o)).trace

/-- **A run is quiet until the maps are filled**, and then they stay filled. -/
theorem moments_unfold (e : LoadEnv Ctx) (cfg : EbafUserConfig) (o : Others Other) :
    Unfolds e cfg o (moments e cfg o) := by
  have run : Unfolds e cfg o ((ebafRun e cfg).exec (.initial o)).trace := by
    refine Prog.Ensures.exec (E := fun s : LoaderState Other Ctx => Unfolds e cfg o s.trace) ?_
    rw [ebafRun, ebafBpfStart_eq]
    have settled : ∀ s : LoaderState Other Ctx, Settled e cfg o s → Unfolds e cfg o s.trace :=
      fun _ hs => hs.moments
    have prepared := (prepareStart_spec e cfg o).and
      (keeps_quiet_prepareStart (.initial o) (quiet_initial o))
    refine .bind (R := fun _ s => Settled e cfg o s)
      (.bind (prepared.mono (fun _ _ h => h) ?_) ?_) ?_
    · intro s hs
      exact hs.2.unfolds
    · rintro _ s ⟨⟨-, -, hconfigured⟩, hquiet⟩
      exact (keeps_settled_finishStart s (hquiet.settled hconfigured)).mono (fun _ _ h => h) settled
    · intro _ s hs
      exact (keeps_settled_stop s hs).mono (fun _ => settled) settled
  obtain ⟨quiet, ready, htrace, hquiet, hready⟩ := run
  refine ⟨(LoaderState.initial o).kernel :: quiet, ready, ?_, ?_, hready⟩
  · rw [moments, htrace, List.cons_append]
  · exact List.forall_mem_cons.mpr ⟨rfl, hquiet⟩

/-- Where a program has been attached, the maps are filled from then on. -/
theorem Unfolds.ready {ms before after : List (LoaderKernel Other Ctx)}
    {k k₀ : LoaderKernel Other Ctx} (h : Unfolds e cfg o ms) (hms : ms = before ++ k :: after)
    (hk₀ : k₀ ∈ before ++ [k]) (hp : k₀.interface.HasAttached p) :
    Configured e cfg k ∧ (p = .framed .xdp ∨ cfg.hook.usesTc = true ∧ p = cfg.tcProgram) := by
  obtain ⟨quiet, ready, hsplit, hquiet, hready⟩ := h
  have loud : k₀ ∉ quiet := by
    intro hmem
    rw [hquiet k₀ hmem] at hp
    exact o.not_hasAttached p hp
  have hk₀ready : k₀ ∈ ready := by
    have hmem : k₀ ∈ quiet ++ ready := by
      rw [← hsplit, hms, List.append_cons before k after]
      exact List.mem_append_left _ hk₀
    exact (List.mem_append.mp hmem).resolve_left loud
  have hkready : k ∈ ready := by
    rw [hsplit] at hms
    rcases List.append_eq_append_iff.mp hms with ⟨rest, hbefore, hrest⟩ | ⟨rest, hquiet', hrest⟩
    · -- `k` comes behind the quiet moments
      rw [hrest]
      exact List.mem_append_right _ List.mem_cons_self
    · cases rest with
      | nil =>
        rw [List.nil_append] at hrest
        rw [← hrest]
        exact List.mem_cons_self
      | cons k' rest =>
        -- `k` is quiet, and so is what comes before it
        obtain rfl := (List.cons.inj hrest).1
        refine absurd ?_ loud
        rw [hquiet']
        rcases List.mem_append.mp hk₀ with hmem | hmem
        · exact List.mem_append_left _ hmem
        · rw [List.mem_singleton.mp hmem]
          exact List.mem_append_right _ List.mem_cons_self
  exact ⟨(hready k hkready).configured, (hready k₀ hk₀ready).programs p hp⟩

/-- At the moment `k` of a run, the program `p` is attached or has been: a teardown
may have failed to take it off. -/
def HasBeenAttached (e : LoadEnv Ctx) (cfg : EbafUserConfig) (o : Others Other)
    (k : LoaderKernel Other Ctx) (p : PacketProgram) : Prop :=
  ∃ before after k₀, moments e cfg o = before ++ k :: after ∧ k₀ ∈ before ++ [k] ∧
    k₀.interface.HasAttached p

/-- The maps the program `p` reads hold the configuration of the run and a context
that `create_crypto_ctx` has created from it. -/
def ReadsConfigured (e : LoadEnv Ctx) (cfg : EbafUserConfig) (k : LoaderKernel Other Ctx)
    (p : PacketProgram) : Prop :=
  k.configs (k.refs (.packet p) .config) = cfg.crypto ∧
    ∃ c, Creates e.ctxEnv cfg.crypto c ∧ k.slots (k.refs (.packet p) .ctx) = some c

theorem HasBeenAttached.readsConfigured {k : LoaderKernel Other Ctx}
    (h : HasBeenAttached e cfg o k p) : ReadsConfigured e cfg k p := by
  obtain ⟨before, after, k₀, hk, hk₀, hp⟩ := h
  obtain ⟨hc, hprogram⟩ := (moments_unfold e cfg o).ready hk hk₀ hp
  obtain ⟨c, hcreates, hslot⟩ := hc.slot
  have shares : Shares k p := by
    rcases hprogram with rfl | ⟨huse, rfl⟩
    · exact hc.xdp
    · exact hc.tc huse
  refine ⟨?_, c, hcreates, ?_⟩
  · rw [shares.config, hc.config]
  · rw [shares.ctx, hslot]

/-- **No packet program runs unconfigured.**  Take any moment of a run in which any
step may fail, and any program that is attached by then: the maps it reads are
filled from the run's configuration, so that a packet that arrives at this moment
finds a configuration, and is not counted for a missing context. -/
theorem attached_programs_configured (K : CryptoKernel Ctx) (e : LoadEnv Ctx) (cfg : EbafUserConfig)
    (o : Others Other) :
    (∀ k p, HasBeenAttached e cfg o k p → ReadsConfigured e cfg k p) ∧
      ∀ k p, HasBeenAttached e cfg o k p → ∀ answers s,
        (k.env p answers).config = some cfg.crypto ∧
          noCtxCount ((p.run K (k.env p answers)).exec s) = noCtxCount s := by
  constructor
  · intro k p h
    exact h.readsConfigured
  · intro k p h answers s
    obtain ⟨hconfig, c, -, hslot⟩ := h.readsConfigured
    constructor
    · rw [LoaderKernel.env, hconfig]
    · refine p.noCtxCount_run (c := c) K ?_ s
      rw [LoaderKernel.env, hslot]

end Ebaf
