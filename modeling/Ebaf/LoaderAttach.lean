import Ebaf.LoaderPrepare

/-! # The attachments

`attach_xdp` and `attach_tc` each either attach their program and note it for
teardown or leave the interface as it was, an unused hook apart.
-/
namespace Ebaf
open EarlyExit

variable {Other Ctx : Type} {e : LoadEnv Ctx} {cfg : EbafUserConfig} {o : Others Other}
  {s : LoaderState Other Ctx}

/-- The XDP program is attached, if the hook asks for it; the TC side of the
interface is as others left it. -/
structure XdpPhase (e : LoadEnv Ctx) (cfg : EbafUserConfig) (o : Others Other)
    (s : LoaderState Other Ctx) : Prop where
  filters : s.kernel.interface.filters = o.interface.filters
  clsact : s.kernel.interface.clsact = o.clsact
  ifindex : s.rt.ifindex = e.ifindex
  tc : s.rt.tc = none
  xdp : (cfg.hook.usesXdp = true ∧ XdpAttaches e o ∧ ∃ mode,
      s.kernel.interface.xdp = some (.ours (.framed .xdp), mode) ∧ s.rt.xdpFlags = some mode) ∨
    (cfg.hook.usesXdp = false ∧ s.kernel.interface.xdp = o.interface.xdp ∧ s.rt.xdpFlags = none)
  configured : Configured e cfg s.kernel

/-- The TC program is attached, too. -/
structure TcPhase (e : LoadEnv Ctx) (cfg : EbafUserConfig) (o : Others Other)
    (s : LoaderState Other Ctx) : Prop where
  reached : ReachesTc e cfg o
  filters : s.kernel.interface.filters = Function.update o.interface.filters cfg.attachPoint
    (.ours cfg.tcProgram :: o.interface.filters cfg.attachPoint)
  ifindex : s.rt.ifindex = e.ifindex
  tc : s.rt.tc = some (cfg.attachPoint, cfg.tcProgram)
  xdp : (cfg.hook.usesXdp = true ∧ XdpAttaches e o ∧ ∃ mode,
      s.kernel.interface.xdp = some (.ours (.framed .xdp), mode) ∧ s.rt.xdpFlags = some mode) ∨
    (cfg.hook.usesXdp = false ∧ s.kernel.interface.xdp = o.interface.xdp ∧ s.rt.xdpFlags = none)
  configured : Configured e cfg s.kernel

theorem Configured.congr {k k' : LoaderKernel Other Ctx} (h : Configured e cfg k)
    (hrefs : k'.refs = k.refs) (hconfigs : k'.configs = k.configs) (hslots : k'.slots = k.slots) :
    Configured e cfg k' := by
  obtain ⟨hc, hs, ⟨hxc, hxs⟩, htc⟩ := h
  refine ⟨by rw [hconfigs, hc], by rwa [hslots], ⟨by rw [hrefs, hxc], by rw [hrefs, hxs]⟩, ?_⟩
  exact fun h => ⟨by rw [hrefs, (htc h).config], by rw [hrefs, (htc h).ctx]⟩

theorem bpfXdpAttach_ok {i i' : Interface Other} {p : PacketProgram} {mode : XdpMode}
    (h : i.bpfXdpAttach p mode = .ok i') :
    i.xdp = none ∧ i' = { i with xdp := some (.ours p, mode) } := by
  rw [Interface.bpfXdpAttach] at h
  cases hx : i.xdp with
  | none =>
    rw [hx] at h
    cases h
    exact ⟨rfl, rfl⟩
  | some a =>
    rw [hx] at h
    cases h

theorem bpfXdpAttach_error {i : Interface Other} {p : PacketProgram} {mode : XdpMode} {n : Errno}
    (h : i.bpfXdpAttach p mode = .error n) : i.xdp ≠ none := by
  intro hx
  rw [Interface.bpfXdpAttach, hx] at h
  cases h

/-- **`attach_xdp`** attaches the program, or leaves everything as it was. -/
theorem attachXdp_spec {E : LoaderState Other Ctx → Prop} (h : Idle e o s)
    (hc : Configured e cfg s.kernel) (huse : cfg.hook.usesXdp = true) :
    (attachXdp e (.framed .xdp)).Ensures s
      (fun err s' => (err = 0 ∧ XdpPhase e cfg o s') ∨
        (err ≠ 0 ∧ ¬ XdpAttaches e o ∧ Idle e o s')) E := by
  have hslot : s.kernel.interface.xdp = none ↔ o.xdp = none := by
    rw [h.interface, Others.interface]
    exact Option.map_eq_none_iff
  -- a mode fails because the call does, or because the slot is taken
  have fails : ∀ {mode : XdpMode} {n : Errno}, (e.fails (.xdpAttach mode) = some n ∨
      e.fails (.xdpAttach mode) = none ∧
        s.kernel.interface.bpfXdpAttach (.framed .xdp) mode = .error n) →
      o.xdp = none → e.fails (.xdpAttach mode) ≠ none := by
    rintro mode n (hf | ⟨-, herr⟩) hx
    · rw [hf]
      simp
    · exact absurd (hslot.mpr hx) (bpfXdpAttach_error herr)
  have attached : ∀ {mode : XdpMode} {i : Interface Other} {trace : List (LoaderKernel Other Ctx)},
      e.fails (.xdpAttach mode) = none →
      s.kernel.interface.bpfXdpAttach (.framed .xdp) mode = .ok i →
      XdpPhase e cfg o ⟨{ s.kernel with interface := i },
        { s.rt with xdpFlags := some mode }, s.err, trace⟩ := by
    intro mode i trace hf hok
    obtain ⟨hnone, rfl⟩ := bpfXdpAttach_ok hok
    have hfilters := congrArg Interface.filters h.interface
    have hclsact := congrArg Interface.clsact h.interface
    refine ⟨hfilters, hclsact, h.ifindex, h.tc, Or.inl ⟨huse, ⟨hslot.mp hnone, ?_⟩, mode, rfl, rfl⟩,
      hc.congr rfl rfl rfl⟩
    cases mode with
    | driver => exact Or.inl hf
    | generic => exact Or.inr hf
  -- driver mode first
  refine .bind (R := fun err t => (err = 0 ∧ XdpPhase e cfg o
      { t with rt := { t.rt with xdpFlags := some .driver } }) ∨
    (err ≠ 0 ∧ (o.xdp = none → e.fails (.xdpAttach .driver) ≠ none) ∧ t = s))
    (ensures_tryInterface (fun n hn => ?_) fun i hf hok => ?_) ?_
  · exact Or.inr ⟨n.code_ne_zero, fails hn, rfl⟩
  · exact Or.inl ⟨rfl, attached hf hok⟩
  rintro err t (⟨rfl, ht⟩ | ⟨herr, hdriver, rfl⟩)
  · rw [if_pos rfl]
    exact Or.inl ⟨rfl, ht⟩
  -- it has left the interface alone, so generic mode starts from the same state
  rw [if_neg herr]
  refine .bind (R := fun err u => (err = 0 ∧ XdpPhase e cfg o
      { u with rt := { u.rt with xdpFlags := some .generic } }) ∨
    (err ≠ 0 ∧ (o.xdp = none → e.fails (.xdpAttach .generic) ≠ none) ∧ u = t))
    (ensures_tryInterface (fun n hn => ?_) fun i hf hok => ?_) ?_
  · exact Or.inr ⟨n.code_ne_zero, fails hn, rfl⟩
  · exact Or.inl ⟨rfl, attached hf hok⟩
  rintro err u (⟨rfl, hu⟩ | ⟨herr, hgeneric, rfl⟩)
  · rw [if_pos rfl]
    exact Or.inl ⟨rfl, hu⟩
  · rw [if_neg herr]
    refine Or.inr ⟨herr, ?_, h⟩
    rintro ⟨hx, hf | hf⟩
    · exact hdriver hx hf
    · exact hgeneric hx hf

theorem bpfTcHookCreate_ok {i i' : Interface Other} (h : i.bpfTcHookCreate = .ok i') :
    i.clsact = false ∧ i' = { i with clsact := true } := by
  rw [Interface.bpfTcHookCreate] at h
  split at h
  · cases h
  · cases h
    exact ⟨by simpa using ‹¬ i.clsact = true›, rfl⟩

theorem bpfTcHookCreate_error {i : Interface Other} {n : Errno}
    (h : i.bpfTcHookCreate = .error n) : i.clsact = true ∧ n = eexist := by
  rw [Interface.bpfTcHookCreate] at h
  split at h
  · cases h
    exact ⟨‹_›, rfl⟩
  · cases h

theorem bpfTcAttach_ok {i i' : Interface Other} {p : PacketProgram} {point : AttachPoint}
    (h : i.bpfTcAttach p point = .ok i') : i.clsact = true ∧
      i' = { i with filters := Function.update i.filters point (.ours p :: i.filters point) } := by
  rw [Interface.bpfTcAttach] at h
  split at h
  · cases h
  · cases h
    exact ⟨by simpa using ‹¬ i.clsact = false›, rfl⟩

theorem bpfTcAttach_error {i : Interface Other} {p : PacketProgram} {point : AttachPoint} {n : Errno}
    (h : i.bpfTcAttach p point = .error n) : i.clsact = false := by
  rw [Interface.bpfTcAttach] at h
  split at h
  · assumption
  · cases h

theorem Errno.code_inj {n m : Errno} (h : n.code = m.code) : n = m := by
  rw [Errno.code, Errno.code] at h
  exact Subtype.ext (by omega)

/-- What the hook creation leaves: `err` is 0 when it was created, and when it is
the number that says it exists, `attach_tc` goes on. -/
structure HookTried (e : LoadEnv Ctx) (cfg : EbafUserConfig) (o : Others Other)
    (s : LoaderState Other Ctx) (err : Int) (t : LoaderState Other Ctx) : Prop where
  rt : t.rt = s.rt
  xdp : t.kernel.interface.xdp = s.kernel.interface.xdp
  filters : t.kernel.interface.filters = o.interface.filters
  configured : Configured e cfg t.kernel
  created : err = 0 → o.clsact = false
  hook : err = 0 ∨ err = eexist.code → (t.kernel.interface.clsact = true ↔ HookOk e o)
  refused : err ≠ 0 → err ≠ eexist.code → ¬ HookOk e o

theorem tcHookCreate_spec {E : LoaderState Other Ctx → Prop} (h : XdpPhase e cfg o s) :
    (tryInterface e .tcHookCreate fun i => i.bpfTcHookCreate).Ensures s
      (HookTried e cfg o s) E := by
  refine ensures_tryInterface (fun n hn => ?_) fun i hf hok => ?_
  · rcases hn with hf | ⟨hf, herr⟩
    · have hook : HookOk e o ↔ n = eexist ∧ o.clsact = true := by
        rw [HookOk, hf]
        simp
      refine ⟨rfl, rfl, h.filters, h.configured, fun h0 => absurd h0 n.code_ne_zero, ?_, ?_⟩
      · rintro (h0 | heq)
        · exact absurd h0 n.code_ne_zero
        · rw [hook, h.clsact]
          exact ⟨fun hc => ⟨Errno.code_inj heq, hc⟩, And.right⟩
      · exact fun _ hne hh => hne (by rw [(hook.mp hh).1])
    · obtain ⟨hclsact, rfl⟩ := bpfTcHookCreate_error herr
      refine ⟨rfl, rfl, h.filters, h.configured, fun h0 => absurd h0 eexist.code_ne_zero, ?_, ?_⟩
      · exact fun _ => ⟨fun _ => Or.inl hf, fun _ => hclsact⟩
      · exact fun _ hne => absurd rfl hne
  · obtain ⟨hclsact, rfl⟩ := bpfTcHookCreate_ok hok
    refine ⟨rfl, rfl, h.filters, h.configured.congr rfl rfl rfl, ?_, ?_, ?_⟩
    · exact fun _ => h.clsact.symm.trans hclsact
    · exact fun _ => ⟨fun _ => Or.inl hf, fun _ => rfl⟩
    · exact fun hne => absurd rfl hne

/-- The state `attach_tc` leaves when it fails: the TC side is as others left
it, but perhaps for a new hook. -/
structure TcFailed (e : LoadEnv Ctx) (o : Others Other) (s s' : LoaderState Other Ctx) : Prop where
  failed : ¬ TcAttaches e o
  rt : s'.rt = s.rt
  xdp : s'.kernel.interface.xdp = s.kernel.interface.xdp
  filters : s'.kernel.interface.filters = o.interface.filters

/-- Without a `clsact` of others, destroying a hook at one point removes nothing
of theirs. -/
theorem update_nil_of_clsact (hclsact : o.clsact = false) (point : AttachPoint) :
    Function.update o.interface.filters point [] = o.interface.filters := by
  refine Function.update_eq_self_iff.mpr ?_
  show [] = (o.filters point).map Attached.other
  rw [o.filters_clsact point hclsact, List.map_nil]

/-- **`attach_tc`** attaches the program, or leaves the filters as they were. -/
theorem attachTc_spec {E : LoaderState Other Ctx → Prop} (h : XdpPhase e cfg o s)
    (huse : cfg.hook.usesTc = true) (hprep : Prepares e cfg) :
    (attachTc e cfg.tcProgram cfg.attachPoint).Ensures s
      (fun err s' => (err = 0 ∧ TcPhase e cfg o s') ∨ (err ≠ 0 ∧ TcFailed e o s s')) E := by
  refine .bind (tcHookCreate_spec h) fun err t ht => ?_
  by_cases hret : err ≠ 0 ∧ err ≠ eexist.code
  · rw [if_pos hret]
    exact Or.inr ⟨hret.1, fun ha => ht.refused hret.1 hret.2 ha.1, ht.rt, ht.xdp, ht.filters⟩
  rw [if_neg hret]
  have hook := ht.hook (by
    by_cases h0 : err = 0
    · exact Or.inl h0
    · exact Or.inr (not_not.mp fun hne => hret ⟨h0, hne⟩))
  refine .bind (R := fun err' u => (err' = 0 ∧ TcPhase e cfg o
      { u with rt := { u.rt with tc := some (cfg.attachPoint, cfg.tcProgram) } }) ∨
    (err' ≠ 0 ∧ ¬ TcAttaches e o ∧ u = t)) (ensures_tryInterface (fun n hn => ?_) fun i hf hok => ?_) ?_
  · refine Or.inr ⟨n.code_ne_zero, ?_, rfl⟩
    rintro ⟨hh, hf⟩
    rcases hn with hn | ⟨-, herr⟩
    · rw [hf] at hn
      cases hn
    · exact absurd ((hook.mpr hh).symm.trans (bpfTcAttach_error herr)) (by simp)
  · obtain ⟨hclsact, rfl⟩ := bpfTcAttach_ok hok
    have reached : ReachesTc e cfg o :=
      ⟨hprep, huse, fun hx => h.xdp.elim (fun hx => hx.2.1) fun hn => absurd hx (by simp [hn.1]),
        hook.mp hclsact, hf⟩
    refine Or.inl ⟨rfl, reached, ?_, ?_, rfl, ?_, ht.configured.congr rfl rfl rfl⟩
    · simp only [ht.filters]
    · exact (congrArg EbafBpfRuntime.ifindex ht.rt).trans h.ifindex
    · simp only [ht.rt, ht.xdp]
      exact h.xdp
  rintro err' u (⟨rfl, hu⟩ | ⟨herr, hn, rfl⟩)
  · rw [if_neg (by simp)]
    exact Or.inl ⟨rfl, hu⟩
  · rw [if_pos herr]
    refine .bind (R := fun _ v => TcFailed e o s v) (.onlyIf (fun h0 => ?_) fun _ => ?_)
      fun _ v hv => Or.inr ⟨herr, hv⟩
    · refine ensures_onInterface.mpr ⟨hn, ht.rt, ht.xdp, ?_⟩
      simp only [Interface.bpfTcHookDestroy, ht.filters]
      exact update_nil_of_clsact (ht.created h0) _
    · exact ⟨hn, ht.rt, ht.xdp, ht.filters⟩

end Ebaf
