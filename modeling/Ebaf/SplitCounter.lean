import Mathlib.Data.List.Range
import Mathlib.Logic.Function.Basic
import Ebaf.Runs

/-! # A counter that is read and advanced in two steps

A thread takes the value of a counter in one step and advances the counter in a
later one.  As long as no thread reads between the two steps of another one, the
values are numbered without gaps; the first read that does repeats a value.
-/
namespace SplitCounter
open Runs

inductive Act (T : Type) where
  | read (t : T)
  | advance (t : T)

/-- The counter, the values held between the two steps, and all values read. -/
structure State (T : Type) where
  count : Nat
  held : T → Option Nat
  values : List Nat

variable {T : Type} [DecidableEq T]

def step (s : State T) : Act T → Option (State T)
  | .read t =>
    if s.held t = none then
      some
        { count := s.count
          held := Function.update s.held t (some s.count)
          values := s.values ++ [s.count] }
    else none
  | .advance t =>
    if s.held t = none then none
    else some { s with count := s.count + 1, held := Function.update s.held t none }

/-- No thread is between its two steps. -/
def Quiet (s : State T) : Prop := ∀ t, s.held t = none

/-- A thread that reads is alone. -/
def Alone (s : State T) (a : Act T) : Prop := ∀ t, a = .read t → Quiet s

variable {s s' : State T} {a : Act T} {acts : List (Act T)} {t : T}

theorem step_read (h : step s (.read t) = some s') : s.held t = none ∧
    s' = { count := s.count
           held := Function.update s.held t (some s.count)
           values := s.values ++ [s.count] } := by
  rw [step] at h
  split at h
  · exact ⟨‹_›, (Option.some.inj h).symm⟩
  · cases h

theorem step_advance (h : step s (.advance t) = some s') : s.held t ≠ none ∧
    s' = { s with count := s.count + 1, held := Function.update s.held t none } := by
  rw [step] at h
  split at h
  · cases h
  · exact ⟨‹_›, (Option.some.inj h).symm⟩

/-- The values are numbered without gaps: at most one thread holds one, and it is the
last. -/
def Numbered (s : State T) : Prop :=
  (Quiet s ∧ s.values = List.range s.count) ∨
    ∃ t, s.held t = some s.count ∧ (∀ t', t' ≠ t → s.held t' = none) ∧
      s.values = List.range (s.count + 1)

omit [DecidableEq T] in
theorem Numbered.values_of_quiet (h : Numbered s) (hquiet : Quiet s) :
    s.values = List.range s.count := by
  rcases h with ⟨-, hvalues⟩ | ⟨t, hheld, -, -⟩
  · exact hvalues
  · rw [hquiet t] at hheld
    cases hheld

omit [DecidableEq T] in
theorem Numbered.nodup (h : Numbered s) : s.values.Nodup := by
  rcases h with ⟨-, hvalues⟩ | ⟨-, -, -, hvalues⟩
  · rw [hvalues]
    exact List.nodup_range
  · rw [hvalues]
    exact List.nodup_range

/-- **A step of a thread that is alone.** -/
theorem Numbered.step (h : Numbered s) (ha : Alone s a) (hs : step s a = some s') :
    Numbered s' := by
  cases a with
  | read t =>
    obtain ⟨-, rfl⟩ := step_read hs
    have hquiet : Quiet s := ha t rfl
    refine Or.inr ⟨t, Function.update_self .., fun t' hne => ?_, ?_⟩
    · exact (Function.update_of_ne hne _ _).trans (hquiet t')
    · show s.values ++ [s.count] = List.range (s.count + 1)
      rw [h.values_of_quiet hquiet, List.range_succ]
  | advance t =>
    obtain ⟨hne, rfl⟩ := step_advance hs
    rcases h with ⟨hquiet, -⟩ | ⟨t', hheld, hothers, hvalues⟩
    · exact absurd (hquiet t) hne
    · have ht : t = t' := by
        by_contra hdiff
        exact hne (hothers t hdiff)
      subst ht
      refine Or.inl ⟨fun t' => ?_, hvalues⟩
      by_cases h : t' = t
      · rw [h]
        exact Function.update_self ..
      · exact (Function.update_of_ne h _ _).trans (hothers t' h)

/-- **A read that is not alone repeats a value.** -/
theorem Numbered.not_nodup (h : Numbered s) (ha : ¬ Alone s a) (hs : SplitCounter.step s a = some s') :
    ¬ s'.values.Nodup := by
  cases a with
  | advance t => exact absurd (fun t' h => by cases h) ha
  | read t =>
    obtain ⟨-, rfl⟩ := step_read hs
    rcases h with ⟨hquiet, -⟩ | ⟨-, -, -, hvalues⟩
    · exact absurd (fun _ _ => hquiet) ha
    · show ¬ (s.values ++ [s.count]).Nodup
      rw [hvalues, List.nodup_append]
      intro hnodup
      exact hnodup.2.2 s.count (List.mem_range.mpr (Nat.lt_succ_self _)) s.count
        (List.mem_singleton_self _) rfl

/-- Values are not forgotten. -/
theorem values_kept (h : step s a = some s') : s.values <+: s'.values := by
  cases a with
  | read t =>
    obtain ⟨-, rfl⟩ := step_read h
    exact List.prefix_append _ _
  | advance t =>
    obtain ⟨-, rfl⟩ := step_advance h
    exact List.prefix_rfl

theorem values_kept_run (h : run step s acts = some s') : s.values <+: s'.values :=
  run_invariant (I := fun m => s.values <+: m.values)
    (fun _ _ _ hm hstep => hm.trans (values_kept hstep)) List.prefix_rfl h

theorem Numbered.run (h : Numbered s) (halone : Along SplitCounter.step Alone s acts)
    (hrun : run SplitCounter.step s acts = some s') : Numbered s' :=
  run_invariant_along (fun _ _ _ hm ha hstep => hm.step ha hstep) h halone hrun

/-- **The values of a run are distinct exactly when every thread is alone as it
reads.** -/
theorem nodup_iff_alone (h : Numbered s) (hrun : run step s acts = some s') :
    s'.values.Nodup ↔ Along step Alone s acts := by
  induction acts generalizing s with
  | nil =>
    obtain rfl := Option.some.inj hrun
    exact ⟨fun _ => trivial, fun _ => h.nodup⟩
  | cons a acts ih =>
    obtain ⟨m, hm, hrest⟩ := exists_of_run_cons hrun
    rw [along_cons hm]
    by_cases ha : Alone s a
    · rw [ih (h.step ha hm) hrest]
      exact ⟨fun hacts => ⟨ha, hacts⟩, And.right⟩
    · -- the repeated value stays among the values
      constructor
      · intro hnodup
        have hpart := (values_kept_run hrest).sublist
        exact absurd (hnodup.sublist hpart) (h.not_nodup ha hm)
      · exact fun hall => absurd hall.1 ha

end SplitCounter
