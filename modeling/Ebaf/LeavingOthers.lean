import Ebaf.LoaderRun

/-! # Leaving others alone

A run should leave the interface as it found it, whether its start fails or it
is stopped in the end: what others have attached is still attached, and nothing
of this run is.  The XDP side keeps to that: the program is attached only to a
free slot.  On the TC side `ebaf_bpf_stop` destroys the hook without knowing
whether this run created it, which `attach_tc` takes care of when it fails.
-/
namespace Ebaf
open EarlyExit

variable {Other Ctx : Type}

/-- All programs of others are attached as before, and none of this run is. -/
structure LeftAlone (o : Others Other) (i : Interface Other) : Prop where
  xdp : ∀ p mode, o.xdp = some (p, mode) → i.xdp = some (.other p, mode)
  filters : ∀ point, ((o.filters point).map .other).Sublist (i.filters point)
  noXdp : ∀ p mode, i.xdp ≠ some (.ours p, mode)
  noFilter : ∀ p point, .ours p ∉ i.filters point

variable {o : Others Other} {i : Interface Other}

theorem ours_notMem_filters (o : Others Other) (p : PacketProgram) (point : AttachPoint) :
    .ours p ∉ o.interface.filters point := by
  intro h
  obtain ⟨_, -, h⟩ := List.mem_map.mp h
  cases h

/-- The interface others left is left alone as long as no filter is missing. -/
theorem leftAlone_iff (hxdp : i.xdp = o.interface.xdp)
    (hours : ∀ p point, .ours p ∉ i.filters point) :
    LeftAlone o i ↔ ∀ point, ((o.filters point).map .other).Sublist (i.filters point) := by
  refine ⟨LeftAlone.filters, fun hfilters => ⟨?_, hfilters, ?_, hours⟩⟩
  · intro p mode hp
    rw [hxdp, Others.interface, hp]
    rfl
  · intro p mode hp
    rw [hxdp] at hp
    obtain ⟨_, -, h⟩ := Option.map_eq_some_iff.mp hp
    cases h

/-- **Which runs leave others alone**: all but those that attach their TC program
where others have filters. -/
theorem RunEnd.leftAlone_iff {e : LoadEnv Ctx} {cfg : EbafUserConfig} (h : RunEnd e cfg o i) :
    LeftAlone o i ↔ ¬ (ReachesTc e cfg o ∧ o.filters cfg.attachPoint ≠ []) := by
  cases h with
  | kept hn hxdp hfilters =>
    have hours : ∀ p point, .ours p ∉ i.filters point := by
      intro p point
      rw [hfilters]
      exact ours_notMem_filters o p point
    rw [Ebaf.leftAlone_iff hxdp hours]
    constructor
    · rintro - ⟨hr, -⟩
      exact hn hr
    · intro _ point
      rw [hfilters]
      exact List.Sublist.refl _
  | flushed hr hxdp hfilters =>
    have hat : i.filters cfg.attachPoint = [] := by rw [hfilters, Function.update_self]
    have helse : ∀ point, point ≠ cfg.attachPoint → i.filters point = o.interface.filters point :=
      fun point hne => by rw [hfilters, Function.update_of_ne hne]
    have hours : ∀ p point, .ours p ∉ i.filters point := by
      intro p point hp
      by_cases heq : point = cfg.attachPoint
      · rw [heq, hat] at hp
        cases hp
      · rw [helse point heq] at hp
        exact ours_notMem_filters o p point hp
    rw [Ebaf.leftAlone_iff hxdp hours]
    constructor
    · rintro hall ⟨-, hne⟩
      have hsub := hall cfg.attachPoint
      rw [hat] at hsub
      exact hne (List.map_eq_nil_iff.mp (List.sublist_nil.mp hsub))
    · intro hn point
      by_cases heq : point = cfg.attachPoint
      · have hnil : o.filters cfg.attachPoint = [] := not_not.mp fun hne => hn ⟨hr, hne⟩
        rw [heq, hnil]
        exact List.nil_sublist _
      · rw [helse point heq]
        exact List.Sublist.refl _

/-- **Start and stop leave others alone exactly when they do not attach a TC
program where others have filters.**  A run is a start that fails, at any of its
calls, or one that is stopped in the end; others may have any programs on the
interface before it. -/
theorem ebafRun_leftAlone_iff (e : LoadEnv Ctx) (cfg : EbafUserConfig) (o : Others Other) :
    LeftAlone o ((ebafRun e cfg).exec (.initial o)).kernel.interface ↔
      ¬ (ReachesTc e cfg o ∧ o.filters cfg.attachPoint ≠ []) := by
  let ended (s : LoaderState Other Ctx) : Prop := RunEnd e cfg o s.kernel.interface
  refine RunEnd.leftAlone_iff (Prog.Ensures.exec (E := ended) ?_)
  refine .bind ((ebafBpfStart_spec e cfg o).mono (fun _ _ h => h) fun _ h => h.ended) ?_
  rintro _ s ⟨-, hs⟩
  exact hs.stop.mono (fun _ _ h => h.1) fun _ h => h

/-- An interface where someone has a filter at egress. -/
def egressFilter : Others Unit where
  xdp := none
  clsact := true
  filters := fun p => if p = .egress then [()] else []
  filters_clsact := fun _ h => by cases h

/-- The other's filter at egress is gone once a TC program has been there. -/
theorem ebafRun_removes_filter :
    ¬ LeftAlone egressFilter
      ((ebafRun .smooth (knownUserConfig ebafActionEncrypt .tc)).exec
        (.initial egressFilter)).kernel.interface := by
  intro h
  have hgone : ((ebafRun .smooth (knownUserConfig ebafActionEncrypt .tc)).exec
      (.initial egressFilter)).kernel.interface.filters .egress = [] := rfl
  have hsub := h.filters .egress
  rw [hgone] at hsub
  cases hsub

end Ebaf
