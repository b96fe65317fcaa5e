import Ebaf.Loader

/-! # Before the attachments

While a start prepares (`Idle`), nothing of this run is attached and the
interface is as others left it.  The conditions under which it gets past a phase
are conditions on the run's parameters: `Prepares` for the calls before the
attachments, `XdpAttaches` and `TcAttaches` for these.
-/
namespace Ebaf
open EarlyExit

variable {Other Ctx : Type} {e : LoadEnv Ctx} {cfg : EbafUserConfig} {o : Others Other}
  {s : LoaderState Other Ctx}

/-! ## Conditions on a run -/

/-- The calls that bring in a packet program. -/
def skeletonCalls (p : PacketProgram) (reused : List (MapName × Skeleton)) : List LoadCall :=
  .skeletonOpen (.packet p) ::
    (reused.map (fun x => .reuseFd (.packet p) x.1) ++ [.skeletonLoad (.packet p)])

/-- The calls before the attachments. -/
def prepareCalls (cfg : EbafUserConfig) : List LoadCall :=
  [.ifNametoindex, .skeletonOpen .ctx, .skeletonLoad .ctx] ++
    skeletonCalls (.framed .xdp) xdpReused ++
    (if cfg.hook.usesTc then skeletonCalls cfg.tcProgram tcReused else []) ++
    [.configUpdate, .testRun]

/-- The calls before the attachments succeed, and the context is created. -/
structure Prepares (e : LoadEnv Ctx) (cfg : EbafUserConfig) : Prop where
  calls : ∀ call ∈ prepareCalls cfg, e.fails call = none
  created : ∃ c, Creates e.ctxEnv cfg.crypto c

/-- The XDP program can be attached: the slot is free and one of the modes works. -/
def XdpAttaches (e : LoadEnv Ctx) (o : Others Other) : Prop :=
  o.xdp = none ∧
    (e.fails (.xdpAttach .driver) = none ∨ e.fails (.xdpAttach .generic) = none)

/-- There is a hook, or it can be created. -/
def HookOk (e : LoadEnv Ctx) (o : Others Other) : Prop :=
  e.fails .tcHookCreate = none ∨ e.fails .tcHookCreate = some eexist ∧ o.clsact = true

/-- The TC program can be attached: there is a hook for the filter. -/
def TcAttaches (e : LoadEnv Ctx) (o : Others Other) : Prop :=
  HookOk e o ∧ e.fails .tcAttach = none

/-- A run attaches its TC program. -/
structure ReachesTc (e : LoadEnv Ctx) (cfg : EbafUserConfig) (o : Others Other) : Prop where
  prepares : Prepares e cfg
  hook : cfg.hook.usesTc = true
  xdp : cfg.hook.usesXdp = true → XdpAttaches e o
  tc : TcAttaches e o

/-! ## The steps -/

section Steps
variable {Q : Unit → LoaderState Other Ctx → Prop} {E : LoaderState Other Ctx → Prop}

theorem ensures_onKernel {g : LoaderKernel Other Ctx → LoaderKernel Other Ctx} :
    (onKernel g).Ensures s Q E ↔
      Q () { s with kernel := g s.kernel, trace := s.trace ++ [g s.kernel] } :=
  Iff.rfl

theorem ensures_onInterface {g : Interface Other → Interface Other} :
    (onInterface g).Ensures s Q E ↔
      Q () { s with
        kernel := { s.kernel with interface := g s.kernel.interface }
        trace := s.trace ++ [{ s.kernel with interface := g s.kernel.interface }] } :=
  Iff.rfl

theorem ensures_onRuntime {g : EbafBpfRuntime → EbafBpfRuntime} :
    (onRuntime g).Ensures s Q E ↔ Q () { s with rt := g s.rt } :=
  Iff.rfl

theorem ensures_setErr {n : Int} : (setErr n).Ensures s Q E ↔ Q () { s with err := n } :=
  Iff.rfl

/-- A call that may fail, then the lines after it. -/
theorem ensures_callOr {α : Type} {call : LoadCall} {k : Int → LoaderProg Other Ctx Unit}
    {g : Unit → LoaderProg Other Ctx α} {Q : α → LoaderState Other Ctx → Prop}
    (hexit : ∀ n, e.fails call = some n → (k n.code).Ensures s (fun _ => E) E)
    (hgo : e.fails call = none → (g ()).Ensures s Q E) :
    (callOr e call k >>= g).Ensures s Q E := by
  refine Prog.ensures_bind.mpr ?_
  rw [callOr]
  cases hc : e.fails call with
  | none => exact hgo hc
  | some n => exact Prog.ensures_bind.mpr ((hexit n hc).mono (fun _ _ h => h) fun _ h => h)

/-- A change of the interface that may fail. -/
theorem ensures_tryInterface {call : LoadCall}
    {g : Interface Other → Except Errno (Interface Other)} {Q : Int → LoaderState Other Ctx → Prop}
    (hfail : ∀ n : Errno, (e.fails call = some n ∨
        e.fails call = none ∧ g s.kernel.interface = .error n) → Q n.code s)
    (hok : ∀ i, e.fails call = none → g s.kernel.interface = .ok i →
      Q 0 { s with
        kernel := { s.kernel with interface := i }
        trace := s.trace ++ [{ s.kernel with interface := i }] }) :
    (tryInterface e call g).Ensures s Q E := by
  refine Prog.ensures_bind.mpr (Prog.ensures_get.mpr ?_)
  cases hc : e.fails call with
  | some n => exact hfail n (Or.inl hc)
  | none =>
    cases hg : g s.kernel.interface with
    | error n => exact hfail n (Or.inr ⟨hc, hg⟩)
    | ok i => exact hok i hc hg

end Steps

/-! ## Stopping -/

/-- The interface after the XDP part of a teardown. -/
def EbafBpfRuntime.detachXdp (rt : EbafBpfRuntime) (i : Interface Other) : Interface Other :=
  match rt.xdpFlags with
  | some mode => if 0 < rt.ifindex then i.bpfXdpDetach mode else i
  | none => i

/-- The interface after the TC part. -/
def EbafBpfRuntime.detachTc (rt : EbafBpfRuntime) (detaches : Bool) (i : Interface Other) :
    Interface Other :=
  match rt.tc with
  | some (point, p) => (if detaches then i.bpfTcDetach p point else i).bpfTcHookDestroy point
  | none => i

/-- **What `ebaf_bpf_stop` leaves of the interface.** -/
theorem ebafBpfStop_spec {E : LoaderState Other Ctx → Prop} :
    (ebafBpfStop e).Ensures s
      (fun _ s' => s'.kernel.interface = s.rt.detachTc e.detaches (s.rt.detachXdp s.kernel.interface) ∧
        s'.err = s.err) E := by
  refine Prog.ensures_bind.mpr (Prog.ensures_get.mpr ?_)
  refine .bind (R := fun _ t => t.kernel.interface = s.rt.detachXdp s.kernel.interface ∧
    t.err = s.err) ?_ ?_
  · rw [stopXdp]
    cases hx : s.rt.xdpFlags with
    | none => exact ⟨by rw [EbafBpfRuntime.detachXdp, hx], rfl⟩
    | some mode =>
      refine .onlyIf (fun h => ensures_onInterface.mpr ⟨?_, rfl⟩) fun h => ⟨?_, rfl⟩
      · rw [EbafBpfRuntime.detachXdp, hx]
        exact (if_pos h).symm
      · rw [EbafBpfRuntime.detachXdp, hx]
        exact (if_neg h).symm
  rintro _ t ⟨hi, herr⟩
  refine .bind (R := fun _ u => u.kernel.interface =
    s.rt.detachTc e.detaches (s.rt.detachXdp s.kernel.interface) ∧ u.err = s.err) ?_ ?_
  · rw [stopTc, EbafBpfRuntime.detachTc]
    cases s.rt.tc with
    | none => exact ⟨hi, herr⟩
    | some tc =>
      refine .bind (R := fun _ u => u.kernel.interface =
        (if e.detaches = true then t.kernel.interface.bpfTcDetach tc.2 tc.1
          else t.kernel.interface) ∧ u.err = t.err) ?_ ?_
      · refine .onlyIf (fun h => ensures_onInterface.mpr ⟨?_, rfl⟩) fun h => ⟨?_, rfl⟩
        · exact (if_pos h).symm
        · exact (if_neg h).symm
      · rintro _ u ⟨hu, huerr⟩
        refine ensures_onInterface.mpr ⟨?_, huerr.trans herr⟩
        rw [← hi]
        exact congrArg (fun i => Interface.bpfTcHookDestroy i tc.1) hu
  · rintro _ u ⟨hu, huerr⟩
    exact ⟨hu, huerr⟩

/-! ## Preparing -/

/-- Nothing of this run is attached. -/
structure Idle (e : LoadEnv Ctx) (o : Others Other) (s : LoaderState Other Ctx) : Prop where
  interface : s.kernel.interface = o.interface
  ifindex : s.rt.ifindex = e.ifindex
  xdpFlags : s.rt.xdpFlags = none
  tc : s.rt.tc = none

/-- How a run can end: others' programs are as they were, or this run has
attached a TC program and the filters there are gone. -/
inductive RunEnd (e : LoadEnv Ctx) (cfg : EbafUserConfig) (o : Others Other)
    (i : Interface Other) : Prop where
  | kept (h : ¬ ReachesTc e cfg o) (hxdp : i.xdp = o.interface.xdp)
      (hfilters : i.filters = o.interface.filters)
  | flushed (h : ReachesTc e cfg o) (hxdp : i.xdp = o.interface.xdp)
      (hfilters : i.filters = Function.update o.interface.filters cfg.attachPoint [])

/-- A start that has failed has ended the run. -/
structure StartFailed (e : LoadEnv Ctx) (cfg : EbafUserConfig) (o : Others Other)
    (s : LoaderState Other Ctx) : Prop where
  err : s.err ≠ 0
  ended : RunEnd e cfg o s.kernel.interface

theorem Idle.stopped (h : Idle e o s) :
    s.rt.detachTc e.detaches (s.rt.detachXdp s.kernel.interface) = o.interface := by
  rw [EbafBpfRuntime.detachTc, h.tc, EbafBpfRuntime.detachXdp, h.xdpFlags]
  exact h.interface

theorem Idle.kernel (h : Idle e o s) {k : LoaderKernel Other Ctx}
    {trace : List (LoaderKernel Other Ctx)} (hk : k.interface = s.kernel.interface) :
    Idle e o { s with kernel := k, trace := trace } :=
  ⟨hk.trans h.interface, h.ifindex, h.xdpFlags, h.tc⟩

/-- An error while the run prepares leaves everything as it was. -/
theorem Idle.errOut (h : Idle e o s) (hn : ¬ ReachesTc e cfg o) {err : Int} (herr : err ≠ 0) :
    (Ebaf.errOut e err).Ensures s (fun _ => StartFailed e cfg o) (StartFailed e cfg o) := by
  have hset : Idle e o { s with err := err } := ⟨h.interface, h.ifindex, h.xdpFlags, h.tc⟩
  refine Prog.ensures_bind.mpr (ensures_setErr.mpr ?_)
  refine ebafBpfStop_spec.mono ?_ fun _ h => h
  rintro _ s' ⟨hi, he⟩
  rw [hset.stopped] at hi
  exact ⟨he ▸ herr, .kept hn (by rw [hi]) (by rw [hi])⟩

/-- One of the calls before the attachments fails. -/
theorem Idle.callFails (h : Idle e o s) {call : LoadCall} (hmem : call ∈ prepareCalls cfg)
    {n : Errno} (hn : e.fails call = some n) :
    (Ebaf.errOut e n.code).Ensures s (fun _ => StartFailed e cfg o) (StartFailed e cfg o) := by
  refine h.errOut (fun hr => ?_) n.code_ne_zero
  rw [hr.prepares.calls call hmem] at hn
  cases hn

/-- What the map names of a packet program refer to after it shares the maps of
others. -/
def sharedRefs (refs : Skeleton → MapName → Skeleton) (start : MapName → Skeleton)
    (reused : List (MapName × Skeleton)) : MapName → Skeleton :=
  reused.foldl (fun r x => Function.update r x.1 (refs x.2 x.1)) start

/-- The run still prepares, and only the packet program `p` has changed its
references. -/
structure Rebound (e : LoadEnv Ctx) (o : Others Other) (p : PacketProgram)
    (refs : Skeleton → MapName → Skeleton) (r : MapName → Skeleton)
    (s : LoaderState Other Ctx) : Prop where
  idle : Idle e o s
  refs : s.kernel.refs = Function.update refs (.packet p) r

theorem reuseAll_spec {p : PacketProgram} {refs : Skeleton → MapName → Skeleton} :
    ∀ {reused : List (MapName × Skeleton)} {r : MapName → Skeleton} {s : LoaderState Other Ctx},
      Rebound e o p refs r s → (∀ x ∈ reused, x.2 ≠ .packet p) →
      (∀ x ∈ reused, LoadCall.reuseFd (.packet p) x.1 ∈ prepareCalls cfg) →
      (reuseAll e p reused).Ensures s
        (fun _ s' => (∀ x ∈ reused, e.fails (.reuseFd (.packet p) x.1) = none) ∧
          Rebound e o p refs (sharedRefs refs r reused) s') (StartFailed e cfg o)
  | [], _, _, h, _, _ => ⟨fun _ hx => absurd hx (by simp), h⟩
  | (m, source) :: rest, r, s, h, hne, hmem => by
    refine ensures_callOr (fun n hn => h.idle.callFails (hmem _ List.mem_cons_self) hn) fun hok => ?_
    refine Prog.ensures_bind.mpr (ensures_onKernel.mpr ?_)
    have hsource : source ≠ .packet p := hne _ List.mem_cons_self
    have hnext : Rebound e o p refs (Function.update r m (refs source m))
        { s with
          kernel := { s.kernel with
            refs := Function.update s.kernel.refs (.packet p)
              (Function.update (s.kernel.refs (.packet p)) m (s.kernel.refs source m)) }
          trace := s.trace ++ [{ s.kernel with
            refs := Function.update s.kernel.refs (.packet p)
              (Function.update (s.kernel.refs (.packet p)) m (s.kernel.refs source m)) }] } := by
      refine ⟨h.idle.kernel rfl, ?_⟩
      simp only [h.refs, Function.update_self, Function.update_of_ne hsource, Function.update_idem]
    refine (reuseAll_spec hnext (fun x hx => hne x (List.mem_cons_of_mem _ hx))
      fun x hx => hmem x (List.mem_cons_of_mem _ hx)).mono ?_ fun _ h => h
    rintro _ s' ⟨hrest, hs'⟩
    exact ⟨List.forall_mem_cons.mpr ⟨hok, hrest⟩, hs'⟩

/-- **A packet program is brought in**, sharing maps, or the run ends. -/
theorem loadSkeleton_spec {p : PacketProgram} {reused : List (MapName × Skeleton)}
    (h : Idle e o s) (hne : ∀ x ∈ reused, x.2 ≠ .packet p)
    (hmem : ∀ call ∈ skeletonCalls p reused, call ∈ prepareCalls cfg) :
    (loadSkeleton e p reused).Ensures s
      (fun _ s' => (∀ call ∈ skeletonCalls p reused, e.fails call = none) ∧
        Rebound e o p s.kernel.refs
          (sharedRefs s.kernel.refs (fun _ => .packet p) reused) s') (StartFailed e cfg o) := by
  have hreuse : ∀ x ∈ reused, LoadCall.reuseFd (.packet p) x.1 ∈ prepareCalls cfg := by
    intro x hx
    refine hmem _ (List.mem_cons_of_mem _ (List.mem_append_left _ ?_))
    exact List.mem_map_of_mem (f := fun x => LoadCall.reuseFd (.packet p) x.1) hx
  refine ensures_callOr (fun n hn => h.callFails (hmem _ List.mem_cons_self) hn) fun hopen => ?_
  refine Prog.ensures_bind.mpr (ensures_onKernel.mpr ?_)
  refine .bind (reuseAll_spec ⟨h.kernel rfl, rfl⟩ hne hreuse) ?_
  rintro _ t ⟨hshared, ht⟩
  refine ensures_callOr (fun n hn => ht.idle.callFails (hmem _ ?_) hn) fun hload => ?_
  · exact List.mem_cons_of_mem _ (List.mem_append_right _ List.mem_cons_self)
  · refine ensures_onKernel.mpr ⟨?_, ht.idle.kernel rfl, ht.refs⟩
    refine List.forall_mem_cons.mpr ⟨hopen, fun call hc => ?_⟩
    rcases List.mem_append.mp hc with hc | hc
    · obtain ⟨x, hx, rfl⟩ := List.mem_map.mp hc
      exact hshared x hx
    · rw [List.mem_singleton.mp hc]
      exact hload

/-- The maps a packet program reads are those of the context program. -/
structure Shares (k : LoaderKernel Other Ctx) (p : PacketProgram) : Prop where
  config : k.refs (.packet p) .config = .ctx
  ctx : k.refs (.packet p) .ctx = .ctx

/-- The configuration is in its map and a context created from it in the other,
and all programs of the run share these maps. -/
structure Configured (e : LoadEnv Ctx) (cfg : EbafUserConfig) (k : LoaderKernel Other Ctx) :
    Prop where
  config : k.configs .ctx = cfg.crypto
  slot : ∃ c, Creates e.ctxEnv cfg.crypto c ∧ k.slots .ctx = some c
  xdp : Shares k (.framed .xdp)
  tc : cfg.hook.usesTc = true → Shares k cfg.tcProgram

theorem tcProgram_ne_xdp (cfg : EbafUserConfig) : cfg.tcProgram ≠ .framed .xdp := by
  rw [EbafUserConfig.tcProgram]
  split <;> simp

/-- The programs are loaded: the run still prepares and maps are shared. -/
structure ProgramsLoaded (e : LoadEnv Ctx) (cfg : EbafUserConfig) (o : Others Other)
    (s : LoaderState Other Ctx) : Prop where
  idle : Idle e o s
  ctx : s.kernel.refs .ctx = fun _ => .ctx
  xdp : Shares s.kernel (.framed .xdp)
  tc : cfg.hook.usesTc = true → Shares s.kernel cfg.tcProgram

/-- The context is created in a run of `create_crypto_ctx`, or it returns
something else than 0. -/
theorem testRun_spec {E : LoaderState Other Ctx → Prop} (h : ProgramsLoaded e cfg o s)
    (hc : s.kernel.configs .ctx = cfg.crypto) :
    (testRun e.ctxEnv).Ensures s
      (fun retval s' => Idle e o s' ∧ (retval = 0 → Configured e cfg s'.kernel) ∧
        (retval ≠ 0 → ∀ c, ¬ Creates e.ctxEnv cfg.crypto c)) E := by
  have hconfig : s.kernel.configs (s.kernel.refs .ctx .config) = cfg.crypto := by rw [h.ctx, hc]
  refine Prog.ensures_bind.mpr (Prog.ensures_get.mpr (Prog.ensures_bind.mpr ?_))
  refine ensures_onKernel.mpr ⟨h.idle.kernel rfl, fun hzero => ?_, fun hne c hcreates => ?_⟩
  all_goals
    have hend := createCryptoCtx_spec e.ctxEnv
      ⟨s.kernel.configs (s.kernel.refs .ctx .config), s.kernel.slots (s.kernel.refs .ctx .ctx),
        [], [], 0⟩
    change CtxEnd _ _ (s.kernel.createCryptoCtx e.ctxEnv) at hend
  · cases hend with
    | exchanged c hcreates hs =>
      refine ⟨hc, ⟨c, hconfig ▸ hcreates, ?_⟩, ⟨h.xdp.config, h.xdp.ctx⟩,
        fun htc => ⟨(h.tc htc).config, (h.tc htc).ctx⟩⟩
      simp only [h.ctx, Function.update_self]
      rw [hs]
    | notCreated _ n hn hs => exact absurd (by rw [← hzero, hs]) hn
    | notStored c _ hs =>
      rw [hs] at hzero
      cases hzero
  · cases hend with
    | exchanged c _ hs => exact hne (by rw [hs])
    | notCreated hn _ _ _ => exact hn c (by rw [hconfig]; exact hcreates)
    | notStored _ hn _ => exact hn c (by rw [hconfig]; exact hcreates)

/-- The configuration is written and the context created, or the run ends. -/
theorem configure_spec (h : ProgramsLoaded e cfg o s) :
    (configure e cfg.crypto).Ensures s
      (fun _ s' => e.fails .configUpdate = none ∧ e.fails .testRun = none ∧ Idle e o s' ∧
        Configured e cfg s'.kernel) (StartFailed e cfg o) := by
  have hmem : ∀ call ∈ [LoadCall.configUpdate, .testRun], call ∈ prepareCalls cfg :=
    fun call hc => List.mem_append_right _ hc
  refine .bind (R := fun _ => ProgramsLoaded e cfg o) (ensures_onRuntime.mpr ?_) fun _ t ht => ?_
  · exact ⟨⟨h.idle.interface, h.idle.ifindex, h.idle.xdpFlags, h.idle.tc⟩, h.ctx, h.xdp, h.tc⟩
  refine ensures_callOr (fun n hn => ht.idle.callFails (hmem _ (by simp)) hn) fun hupdate => ?_
  refine .bind (R := fun _ u => ProgramsLoaded e cfg o u ∧ u.kernel.configs .ctx = cfg.crypto)
    (ensures_onKernel.mpr ⟨?_, ?_⟩) ?_
  · exact ⟨ht.idle.kernel rfl, ht.ctx, ⟨ht.xdp.config, ht.xdp.ctx⟩,
      fun htc => ⟨(ht.tc htc).config, (ht.tc htc).ctx⟩⟩
  · simp only [ht.ctx, Function.update_self]
  rintro _ u ⟨hu, hconfig⟩
  refine ensures_callOr (fun n hn => hu.idle.callFails (hmem _ (by simp)) hn) fun htest => ?_
  refine .bind (testRun_spec hu hconfig) ?_
  rintro retval v ⟨hv, hcreated, hfailed⟩
  refine .lastCheck (fun hne => ?_) fun hzero => ?_
  · refine hv.errOut (fun hr => ?_) hne
    obtain ⟨c, hcreates⟩ := hr.prepares.created
    exact hfailed hne c hcreates
  · exact ⟨hupdate, htest, hv, hcreated (not_not.mp hzero)⟩

end Ebaf
