import Ebaf.LoaderAttach

/-! # The whole start

After a start that succeeds, the programs the configuration asks for are
attached (`Running`); after one that fails, and after a stop, the interface is as
`RunEnd` says.
-/
namespace Ebaf
open EarlyExit

variable {Other Ctx : Type} {e : LoadEnv Ctx} {cfg : EbafUserConfig} {o : Others Other}
  {s : LoaderState Other Ctx}

/-- The XDP program of this run is the only one the teardown detaches. -/
theorem detachXdp_restores {i : Interface Other} {rt : EbafBpfRuntime}
    (hindex : rt.ifindex = e.ifindex)
    (h : (cfg.hook.usesXdp = true ∧ XdpAttaches e o ∧ ∃ mode,
        i.xdp = some (.ours (.framed .xdp), mode) ∧ rt.xdpFlags = some mode) ∨
      (cfg.hook.usesXdp = false ∧ i.xdp = o.interface.xdp ∧ rt.xdpFlags = none)) :
    (rt.detachXdp i).xdp = o.interface.xdp ∧ (rt.detachXdp i).filters = i.filters := by
  rcases h with ⟨-, ⟨hfree, -⟩, mode, hx, hflags⟩ | ⟨-, hx, hflags⟩
  · have hpos : 0 < rt.ifindex := by
      rw [hindex]
      exact e.ifindex.2
    simp only [EbafBpfRuntime.detachXdp, hflags, if_pos hpos, Interface.bpfXdpDetach, hx, if_true]
    exact ⟨by rw [Others.interface, hfree]; rfl, trivial⟩
  · simp only [EbafBpfRuntime.detachXdp, hflags]
    exact ⟨hx, trivial⟩

/-- A run that is stopped before its TC program is attached leaves others alone. -/
theorem XdpPhase.stopped (h : XdpPhase e cfg o s) :
    (s.rt.detachTc e.detaches (s.rt.detachXdp s.kernel.interface)).xdp = o.interface.xdp ∧
      (s.rt.detachTc e.detaches (s.rt.detachXdp s.kernel.interface)).filters =
        o.interface.filters := by
  have hx := detachXdp_restores h.ifindex h.xdp
  simp only [EbafBpfRuntime.detachTc, h.tc]
  exact ⟨hx.1, hx.2.trans h.filters⟩

/-- A run that is stopped after its TC program was attached removes all filters
there. -/
theorem TcPhase.stopped (h : TcPhase e cfg o s) :
    (s.rt.detachTc e.detaches (s.rt.detachXdp s.kernel.interface)).xdp = o.interface.xdp ∧
      (s.rt.detachTc e.detaches (s.rt.detachXdp s.kernel.interface)).filters =
        Function.update o.interface.filters cfg.attachPoint [] := by
  have hx := detachXdp_restores h.ifindex h.xdp
  simp only [EbafBpfRuntime.detachTc, h.tc, Interface.bpfTcHookDestroy]
  cases e.detaches with
  | true =>
    simp only [if_true, Interface.bpfTcDetach, Function.update_idem]
    exact ⟨hx.1, by rw [hx.2, h.filters, Function.update_idem]⟩
  | false =>
    simp only [Bool.false_eq_true, if_false]
    exact ⟨hx.1, by rw [hx.2, h.filters, Function.update_idem]⟩

/-- The programs the hook asks for are attached. -/
inductive Running (e : LoadEnv Ctx) (cfg : EbafUserConfig) (o : Others Other)
    (s : LoaderState Other Ctx) : Prop where
  | xdpOnly (huse : cfg.hook.usesTc = false) (h : XdpPhase e cfg o s)
  | withTc (h : TcPhase e cfg o s)

theorem Running.congr {s' : LoaderState Other Ctx} (h : Running e cfg o s)
    (hk : s'.kernel = s.kernel) (hi : s'.rt.ifindex = s.rt.ifindex)
    (hx : s'.rt.xdpFlags = s.rt.xdpFlags) (ht : s'.rt.tc = s.rt.tc) : Running e cfg o s' := by
  cases h with
  | xdpOnly huse h =>
    exact .xdpOnly huse ⟨by rw [hk]; exact h.filters, by rw [hk]; exact h.clsact,
      hi.trans h.ifindex, ht.trans h.tc, by rw [hk, hx]; exact h.xdp, by rw [hk]; exact h.configured⟩
  | withTc h =>
    exact .withTc ⟨h.reached, by rw [hk]; exact h.filters, hi.trans h.ifindex, ht.trans h.tc,
      by rw [hk, hx]; exact h.xdp, by rw [hk]; exact h.configured⟩

/-- **Stopping a run.** -/
theorem Running.stop {E : LoaderState Other Ctx → Prop} (h : Running e cfg o s) :
    (ebafBpfStop e).Ensures s
      (fun _ s' => RunEnd e cfg o s'.kernel.interface ∧ s'.err = s.err) E := by
  refine ebafBpfStop_spec.mono ?_ fun _ h => h
  rintro _ s' ⟨hi, herr⟩
  refine ⟨?_, herr⟩
  rw [hi]
  cases h with
  | xdpOnly huse h =>
    refine .kept (fun hr => ?_) h.stopped.1 h.stopped.2
    rw [hr.hook] at huse
    cases huse
  | withTc h => exact .flushed h.reached h.stopped.1 h.stopped.2

/-- The packet programs are attached, or the run ends. -/
theorem attach_spec (h : Idle e o s) (hc : Configured e cfg s.kernel) (hprep : Prepares e cfg) :
    (attach e cfg).Ensures s (fun _ => Running e cfg o) (StartFailed e cfg o) := by
  refine .bind (R := fun _ t => Idle e o t ∧ Configured e cfg t.kernel)
    (ensures_onRuntime.mpr ⟨⟨h.interface, h.ifindex, h.xdpFlags, h.tc⟩, hc⟩) ?_
  rintro _ t ⟨ht, hct⟩
  refine .bind (R := fun _ => XdpPhase e cfg o) (.onlyIf (fun huse => ?_) fun huse => ?_) ?_
  · refine .bind (attachXdp_spec ht hct huse) ?_
    rintro err u (⟨rfl, hu⟩ | ⟨herr, hn, hu⟩)
    · exact .lastCheck (fun h0 => absurd rfl h0) fun _ => hu
    · exact .lastCheck (fun _ => hu.errOut (fun hr => hn (hr.xdp huse)) herr) fun h0 =>
        absurd herr h0
  · exact ⟨congrArg Interface.filters ht.interface, congrArg Interface.clsact ht.interface,
      ht.ifindex, ht.tc, Or.inr ⟨by simpa using huse, congrArg Interface.xdp ht.interface,
        ht.xdpFlags⟩, hct⟩
  intro _ u hu
  refine .onlyIf (fun huse => ?_) fun huse => .xdpOnly (by simpa using huse) hu
  refine .bind (attachTc_spec hu huse hprep) ?_
  rintro err v (⟨rfl, hv⟩ | ⟨herr, hv⟩)
  · exact .lastCheck (fun h0 => absurd rfl h0) fun _ => .withTc hv
  refine .lastCheck (fun _ => ?_) fun h0 => absurd herr h0
  -- the XDP program is detached again
  refine .bind (R := fun _ w => w.kernel = v.kernel ∧ w.rt = u.rt ∧ w.err = err)
    (ensures_setErr.mpr ⟨rfl, hv.rt, rfl⟩) ?_
  rintro _ w ⟨hk, hrt, hw⟩
  refine ebafBpfStop_spec.mono ?_ fun _ h => h
  rintro _ x ⟨hi, hx⟩
  have hback : (w.rt.detachXdp w.kernel.interface).xdp = o.interface.xdp ∧
      (w.rt.detachXdp w.kernel.interface).filters = w.kernel.interface.filters :=
    detachXdp_restores (by rw [hrt]; exact hu.ifindex) (by rw [hrt, hk, hv.xdp]; exact hu.xdp)
  have htc : w.rt.tc = none := by rw [hrt]; exact hu.tc
  simp only [EbafBpfRuntime.detachTc, htc] at hi
  refine ⟨by rw [hx, hw]; exact herr, ?_⟩
  rw [hi]
  exact .kept (fun hr => hv.failed hr.tc) hback.1 (by rw [hback.2, hk, hv.filters])

/-- The first two calls return without the teardown, and need none. -/
theorem earlyReturn (hi : s.kernel.interface = o.interface) {call : LoadCall}
    (hmem : call ∈ prepareCalls cfg) {n : Errno} (hn : e.fails call = some n) :
    (setErr n.code).Ensures s (fun _ => StartFailed e cfg o) (StartFailed e cfg o) := by
  refine ensures_setErr.mpr ⟨n.code_ne_zero, .kept (fun hr => ?_) (by rw [hi]) (by rw [hi])⟩
  rw [hr.prepares.calls call hmem] at hn
  cases hn

theorem mem_prepareCalls_xdp {call : LoadCall}
    (h : call ∈ skeletonCalls (.framed .xdp) xdpReused) : call ∈ prepareCalls cfg :=
  List.mem_append_left _ (List.mem_append_left _ (List.mem_append_right _ h))

theorem mem_prepareCalls_tc (huse : cfg.hook.usesTc = true) {call : LoadCall}
    (h : call ∈ skeletonCalls cfg.tcProgram tcReused) : call ∈ prepareCalls cfg := by
  refine List.mem_append_left _ (List.mem_append_right _ ?_)
  rwa [if_pos huse]

/-- The calls before the attachments, one group after the other. -/
theorem prepares_of (h1 : e.fails .ifNametoindex = none) (h2 : e.fails (.skeletonOpen .ctx) = none)
    (h3 : e.fails (.skeletonLoad .ctx) = none)
    (hxdp : ∀ call ∈ skeletonCalls (.framed .xdp) xdpReused, e.fails call = none)
    (htc : cfg.hook.usesTc = true →
      ∀ call ∈ skeletonCalls cfg.tcProgram tcReused, e.fails call = none)
    (h4 : e.fails .configUpdate = none) (h5 : e.fails .testRun = none)
    (hc : ∃ c, Creates e.ctxEnv cfg.crypto c) : Prepares e cfg := by
  refine ⟨fun call hmem => ?_, hc⟩
  rcases List.mem_append.mp hmem with hmem | hmem
  · rcases List.mem_append.mp hmem with hmem | hmem
    · rcases List.mem_append.mp hmem with hmem | hmem
      · simp only [List.mem_cons, List.not_mem_nil, or_false] at hmem
        rcases hmem with rfl | rfl | rfl <;> assumption
      · exact hxdp call hmem
    · split at hmem
      · exact htc ‹_› call hmem
      · cases hmem
  · simp only [List.mem_cons, List.not_mem_nil, or_false] at hmem
    rcases hmem with rfl | rfl <;> assumption

/-- The XDP program is brought in. -/
theorem loadXdp_spec (h : Idle e o s) (hctx : s.kernel.refs .ctx = fun _ => .ctx) :
    (loadSkeleton e (.framed .xdp) xdpReused).Ensures s
      (fun _ s' => (∀ call ∈ skeletonCalls (.framed .xdp) xdpReused, e.fails call = none) ∧
        Idle e o s' ∧ (s'.kernel.refs .ctx = fun _ => .ctx) ∧ Shares s'.kernel (.framed .xdp))
      (StartFailed e cfg o) := by
  have hne : ∀ x ∈ xdpReused, x.2 ≠ .packet (.framed .xdp) := by decide
  refine (loadSkeleton_spec h hne fun _ => mem_prepareCalls_xdp).mono ?_ fun _ h => h
  rintro _ s' ⟨hcalls, hs'⟩
  refine ⟨hcalls, hs'.idle, ?_, ⟨?_, ?_⟩⟩
  · rw [hs'.refs, Function.update_of_ne (by simp), hctx]
  · rw [hs'.refs, Function.update_self]
    exact congrFun hctx .config
  · rw [hs'.refs, Function.update_self]
    exact congrFun hctx .ctx

/-- The TC program is brought in, if the hook asks for it. -/
theorem loadTc_spec (h : Idle e o s) (hctx : s.kernel.refs .ctx = fun _ => .ctx)
    (hxdp : Shares s.kernel (.framed .xdp)) :
    (Prog.onlyIf (cfg.hook.usesTc = true) (loadSkeleton e cfg.tcProgram tcReused)).Ensures s
      (fun _ s' => (cfg.hook.usesTc = true →
          ∀ call ∈ skeletonCalls cfg.tcProgram tcReused, e.fails call = none) ∧
        ProgramsLoaded e cfg o s') (StartFailed e cfg o) := by
  refine .onlyIf (fun huse => ?_) fun huse => ?_
  · have hother : Skeleton.packet (.framed .xdp) ≠ .packet cfg.tcProgram :=
      fun heq => tcProgram_ne_xdp cfg (Skeleton.packet.inj heq).symm
    have hne : ∀ x ∈ tcReused, x.2 ≠ .packet cfg.tcProgram := by
      intro x hx
      simp only [tcReused, xdpSkeleton, List.mem_cons, List.not_mem_nil, or_false] at hx
      rcases hx with rfl | rfl | rfl | rfl
      · simp
      · simp
      · exact hother
      · exact hother
    refine (loadSkeleton_spec h hne fun _ => mem_prepareCalls_tc huse).mono ?_ fun _ h => h
    rintro _ s' ⟨hcalls, hs'⟩
    refine ⟨fun _ => hcalls, hs'.idle, ?_, ⟨?_, ?_⟩, fun _ => ⟨?_, ?_⟩⟩
    · rw [hs'.refs, Function.update_of_ne (by simp), hctx]
    · rw [hs'.refs, Function.update_of_ne hother, hxdp.config]
    · rw [hs'.refs, Function.update_of_ne hother, hxdp.ctx]
    · rw [hs'.refs, Function.update_self]
      exact congrFun hctx .config
    · rw [hs'.refs, Function.update_self]
      exact congrFun hctx .ctx
  · exact ⟨fun h => absurd h huse, h, hctx, hxdp, fun h => absurd h huse⟩

/-- `ebaf_bpf_start` up to line 267: nothing is attached yet. -/
def prepareStart (e : LoadEnv Ctx) (cfg : EbafUserConfig) : LoaderProg Other Ctx Unit := do
  onRuntime fun _ => .zero
  callOr e .ifNametoindex setErr
  onRuntime fun rt => { rt with ifindex := e.ifindex }
  callOr e (.skeletonOpen .ctx) setErr
  skeletonOpen .ctx
  callOr e (.skeletonLoad .ctx) (errOut e)
  skeletonLoad .ctx
  loadSkeleton e (.framed .xdp) xdpReused
  Prog.onlyIf (cfg.hook.usesTc = true) (loadSkeleton e cfg.tcProgram tcReused)
  configure e cfg.crypto

/-- The lines after it. -/
def finishStart (e : LoadEnv Ctx) (cfg : EbafUserConfig) : LoaderProg Other Ctx Unit := do
  attach e cfg
  onRuntime fun rt => { rt with statsMap := some xdpSkeleton }
  callOr e .ringBufferNew (errOut e)
  onRuntime fun rt => { rt with eventRing := true }
  setErr 0

theorem ebafBpfStart_eq (e : LoadEnv Ctx) (cfg : EbafUserConfig) :
    (ebafBpfStart e cfg : LoaderProg Other Ctx Unit) =
      prepareStart e cfg >>= fun _ => finishStart e cfg := by
  rw [ebafBpfStart, prepareStart, finishStart]
  simp only [bind_assoc]

/-- **The preparations**: all of them succeed, or the run ends. -/
theorem prepareStart_spec (e : LoadEnv Ctx) (cfg : EbafUserConfig) (o : Others Other) :
    (prepareStart e cfg).Ensures (.initial o)
      (fun _ s' => Prepares e cfg ∧ Idle e o s' ∧ Configured e cfg s'.kernel)
      (StartFailed e cfg o) := by
  have hmem : ∀ call ∈ [LoadCall.ifNametoindex, .skeletonOpen .ctx, .skeletonLoad .ctx],
      call ∈ prepareCalls cfg :=
    fun call hc => List.mem_append_left _ (List.mem_append_left _ (List.mem_append_left _ hc))
  refine .bind (R := fun _ t => t.kernel.interface = o.interface ∧ t.rt = .zero)
    (ensures_onRuntime.mpr ⟨rfl, rfl⟩) ?_
  rintro _ t ⟨hi, hrt⟩
  -- two early returns, while there is nothing to undo
  refine ensures_callOr (fun n hn => earlyReturn hi (hmem _ (by simp)) hn) fun h1 => ?_
  refine .bind (R := fun _ => Idle e o) (ensures_onRuntime.mpr ⟨hi, rfl, ?_, ?_⟩) fun _ t ht => ?_
  · rw [hrt]
    rfl
  · rw [hrt]
    rfl
  refine ensures_callOr (fun n hn => earlyReturn ht.interface (hmem _ (by simp)) hn) fun h2 => ?_
  refine .bind (R := fun _ u => Idle e o u ∧ u.kernel.refs .ctx = fun _ => .ctx)
    (ensures_onKernel.mpr ⟨ht.kernel rfl, ?_⟩) ?_
  · simp only [Function.update_self]
  rintro _ t ⟨ht, hctx⟩
  -- from here on a failure ends in the teardown
  refine ensures_callOr (fun n hn => ht.callFails (hmem _ (by simp)) hn) fun h3 => ?_
  refine .bind (R := fun _ u => Idle e o u ∧ u.kernel.refs .ctx = fun _ => .ctx)
    (ensures_onKernel.mpr ⟨ht.kernel rfl, hctx⟩) ?_
  rintro _ t ⟨ht, hctx⟩
  refine .bind (loadXdp_spec ht hctx) ?_
  rintro _ t ⟨hxdp, ht, hctx, hshares⟩
  refine .bind (loadTc_spec ht hctx hshares) ?_
  rintro _ t ⟨htc, ht⟩
  refine (configure_spec ht).mono ?_ fun _ h => h
  rintro _ t ⟨h4, h5, ht, hconfigured⟩
  obtain ⟨c, hcreates, -⟩ := hconfigured.slot
  exact ⟨prepares_of h1 h2 h3 hxdp htc h4 h5 ⟨c, hcreates⟩, ht, hconfigured⟩

/-- **What a start does**: it returns 0 with the programs attached, or something
else once it has undone what it had done. -/
theorem ebafBpfStart_spec (e : LoadEnv Ctx) (cfg : EbafUserConfig) (o : Others Other) :
    (ebafBpfStart e cfg).Ensures (.initial o)
      (fun _ s' => s'.err = 0 ∧ Running e cfg o s') (StartFailed e cfg o) := by
  rw [ebafBpfStart_eq]
  refine .bind (prepareStart_spec e cfg o) ?_
  rintro _ t ⟨hprep, ht, hconfigured⟩
  refine .bind (attach_spec ht hconfigured hprep) fun _ t ht => ?_
  refine .bind (R := fun _ => Running e cfg o)
    (ensures_onRuntime.mpr (ht.congr rfl rfl rfl rfl)) fun _ t ht => ?_
  refine ensures_callOr (fun n _ => ?_) fun _ => ?_
  · refine .bind (R := fun _ u => Running e cfg o u ∧ u.err = n.code)
      (ensures_setErr.mpr ⟨ht.congr rfl rfl rfl rfl, rfl⟩) ?_
    rintro _ u ⟨hu, herr⟩
    refine hu.stop.mono ?_ fun _ h => h
    rintro _ v ⟨hend, hv⟩
    exact ⟨by rw [hv, herr]; exact n.code_ne_zero, hend⟩
  · refine Prog.ensures_bind.mpr (ensures_onRuntime.mpr (ensures_setErr.mpr ⟨rfl, ?_⟩))
    exact ht.congr rfl rfl rfl rfl

end Ebaf
