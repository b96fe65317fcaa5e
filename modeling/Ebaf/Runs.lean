import Mathlib.Data.Option.Basic

/-! # Runs of a machine

A machine is a partial step function.  A run is a list of actions; what is asked of
every state it reaches, or of every step it takes, is defined along the list.
-/
namespace Runs
variable {S A : Type} (step : S → A → Option S)

/-- The state after a list of actions. -/
def run : S → List A → Option S
  | s, [] => some s
  | s, a :: acts => (step s a).bind fun s' => run s' acts

/-- Every step meets the condition. -/
def Along (P : S → A → Prop) : S → List A → Prop
  | _, [] => True
  | s, a :: acts => P s a ∧ ∀ s', step s a = some s' → Along P s' acts

/-- Every state reached, the first one included, has the property. -/
def Always (Q : S → Prop) : S → List A → Prop
  | s, [] => Q s
  | s, a :: acts => Q s ∧ ∀ s', step s a = some s' → Always Q s' acts

variable {step} {I Q : S → Prop} {P : S → A → Prop} {s s' : S} {a : A} {acts : List A}

theorem run_cons (h : step s a = some s') : run step s (a :: acts) = run step s' acts := by
  rw [run, h, Option.bind_some]

theorem exists_of_run_cons {t : S} (h : run step s (a :: acts) = some t) :
    ∃ s', step s a = some s' ∧ run step s' acts = some t :=
  Option.bind_eq_some_iff.mp h

theorem along_cons (h : step s a = some s') :
    Along step P s (a :: acts) ↔ P s a ∧ Along step P s' acts := by
  rw [Along]
  constructor
  · exact fun hall => ⟨hall.1, hall.2 s' h⟩
  · rintro ⟨hP, hrest⟩
    refine ⟨hP, fun t ht => ?_⟩
    rw [h] at ht
    rwa [← Option.some.inj ht]

instance decidableAlong [∀ s a, Decidable (P s a)] :
    (s : S) → (acts : List A) → Decidable (Along step P s acts)
  | _, [] => isTrue trivial
  | s, a :: acts =>
    match h : step s a with
    | none =>
      decidable_of_iff (P s a)
        ⟨fun hP => ⟨hP, fun s' hs => absurd (h.symm.trans hs) (Option.some_ne_none s').symm⟩,
          And.left⟩
    | some m =>
      have := decidableAlong m acts
      decidable_of_iff (P s a ∧ Along step P m acts) (along_cons h).symm

/-- **What every step preserves, every run preserves.** -/
theorem run_invariant (hstep : ∀ s a s', I s → step s a = some s' → I s') (hs : I s)
    (h : run step s acts = some s') : I s' := by
  induction acts generalizing s with
  | nil =>
    obtain rfl := Option.some.inj h
    exact hs
  | cons a acts ih =>
    obtain ⟨m, hm, hrest⟩ := exists_of_run_cons h
    exact ih (hstep s a m hs hm) hrest

/-- What the steps preserve that meet a condition, such runs preserve. -/
theorem run_invariant_along (hstep : ∀ s a s', I s → P s a → step s a = some s' → I s')
    (hs : I s) (hP : Along step P s acts) (h : run step s acts = some s') : I s' := by
  induction acts generalizing s with
  | nil =>
    obtain rfl := Option.some.inj h
    exact hs
  | cons a acts ih =>
    obtain ⟨m, hm, hrest⟩ := exists_of_run_cons h
    obtain ⟨ha, hacts⟩ := (along_cons hm).mp hP
    exact ih (hstep s a m hs ha hm) hacts hrest

/-- **A property of what a run leaves behind as a condition on its steps**: each step
leaves the property in place exactly when it meets the condition. -/
theorem iff_along (hstep : ∀ s a s', I s → step s a = some s' → I s' ∧ (Q s' ↔ Q s ∧ P s a))
    (hs : I s) (h : run step s acts = some s') : Q s' ↔ Q s ∧ Along step P s acts := by
  induction acts generalizing s with
  | nil =>
    obtain rfl := Option.some.inj h
    exact ⟨fun hQ => ⟨hQ, trivial⟩, And.left⟩
  | cons a acts ih =>
    obtain ⟨m, hm, hrest⟩ := exists_of_run_cons h
    obtain ⟨hI, hQ⟩ := hstep s a m hs hm
    rw [ih hI hrest, hQ, along_cons hm, and_assoc]

/-- What the steps preserve that meet a condition holds in every state such a run
reaches. -/
theorem always_of_along (hstep : ∀ s a s', I s → P s a → step s a = some s' → I s')
    (hQ : ∀ s, I s → Q s) (hs : I s) (hP : Along step P s acts) : Always step Q s acts := by
  induction acts generalizing s with
  | nil => exact hQ s hs
  | cons a acts ih =>
    refine ⟨hQ s hs, fun m hm => ?_⟩
    obtain ⟨ha, hacts⟩ := (along_cons hm).mp hP
    exact ih (hstep s a m hs ha hm) hacts

/-- What holds of every state reached holds of the last one. -/
theorem Always.run_end (hall : Always step Q s acts) (h : run step s acts = some s') : Q s' := by
  induction acts generalizing s with
  | nil =>
    obtain rfl := Option.some.inj h
    exact hall
  | cons a acts ih =>
    obtain ⟨m, hm, hrest⟩ := exists_of_run_cons h
    exact ih (hall.2 m hm) hrest

/-- A condition that carries an invariant carries what follows from both. -/
theorem along_mono {P' : S → A → Prop}
    (hstep : ∀ s a s', I s → P s a → step s a = some s' → P' s a ∧ I s') (hs : I s)
    (hP : Along step P s acts) (h : run step s acts = some s') : Along step P' s acts := by
  induction acts generalizing s with
  | nil => trivial
  | cons a acts ih =>
    obtain ⟨m, hm, hrest⟩ := exists_of_run_cons h
    obtain ⟨ha, hacts⟩ := (along_cons hm).mp hP
    obtain ⟨ha', hI⟩ := hstep s a m hs ha hm
    exact (along_cons hm).mpr ⟨ha', ih hI hacts hrest⟩

/-- **A property of states as a condition on steps.** -/
theorem always_iff_along (hstep : ∀ s a s', Q s → step s a = some s' → (Q s' ↔ P s a))
    (hs : Q s) (h : run step s acts = some s') :
    Always step Q s acts ↔ Along step P s acts := by
  induction acts generalizing s with
  | nil => exact ⟨fun _ => trivial, fun _ => hs⟩
  | cons a acts ih =>
    obtain ⟨m, hm, hrest⟩ := exists_of_run_cons h
    have hfirst : ∀ acts, Always step Q m acts → Q m := by
      intro acts hall
      cases acts with
      | nil => exact hall
      | cons b acts => exact hall.1
    rw [along_cons hm, Always]
    constructor
    · rintro ⟨-, hall⟩
      have hm' : Q m := hfirst acts (hall m hm)
      exact ⟨(hstep s a m hs hm).mp hm', (ih hm' hrest).mp (hall m hm)⟩
    · rintro ⟨ha, hacts⟩
      have hm' : Q m := (hstep s a m hs hm).mpr ha
      refine ⟨hs, fun t ht => ?_⟩
      rw [hm] at ht
      rw [← Option.some.inj ht]
      exact (ih hm' hrest).mpr hacts

/-- Of a run all of whose actions are of a kind: **what every state keeps beside an
invariant as a condition on the steps**. -/
theorem always_iff_along_of {R : A → Prop}
    (hstep : ∀ s a s', I s → Q s → R a → step s a = some s' → (Q s' ↔ P s a))
    (hI : ∀ s a s', I s → step s a = some s' → I s') (hs : I s) (hQ : Q s)
    (hR : ∀ a ∈ acts, R a) (h : run step s acts = some s') :
    Always step Q s acts ↔ Along step P s acts := by
  induction acts generalizing s with
  | nil => exact ⟨fun _ => trivial, fun _ => hQ⟩
  | cons a acts ih =>
    obtain ⟨m, hm, hrest⟩ := exists_of_run_cons h
    obtain ⟨ha, hacts⟩ := List.forall_mem_cons.mp hR
    have hkeeps := hstep s a m hs hQ ha hm
    rw [along_cons hm, Always]
    constructor
    · rintro ⟨-, hall⟩
      have hm' : Q m := by
        cases acts with
        | nil => exact hall m hm
        | cons b acts => exact (hall m hm).1
      exact ⟨hkeeps.mp hm', (ih (hI s a m hs hm) hm' hacts hrest).mp (hall m hm)⟩
    · rintro ⟨hPa, halong⟩
      have hm' := hkeeps.mpr hPa
      refine ⟨hQ, fun t ht => ?_⟩
      obtain rfl := Option.some.inj (hm.symm.trans ht)
      exact (ih (hI s a m hs hm) hm' hacts hrest).mpr halong

/-- **What a run has done so far**: an invariant that tells of the actions taken goes on
along a run. -/
theorem run_history {J : List A → S → Prop} {before : List A}
    (hstep : ∀ before s a s', J before s → step s a = some s' → J (before ++ [a]) s')
    (hs : J before s) (h : run step s acts = some s') : J (before ++ acts) s' := by
  induction acts generalizing before s with
  | nil =>
    obtain rfl := Option.some.inj h
    rwa [List.append_nil]
  | cons a acts ih =>
    obtain ⟨m, hm, hrest⟩ := exists_of_run_cons h
    rw [List.append_cons]
    exact ih (hstep before s a m hs hm) hrest

theorem run_append {more : List A} (h : run step s acts = some s') :
    run step s (acts ++ more) = run step s' more := by
  induction acts generalizing s with
  | nil =>
    obtain rfl := Option.some.inj h
    rfl
  | cons a acts ih =>
    obtain ⟨m, hm, hrest⟩ := exists_of_run_cons h
    rw [List.cons_append, run_cons hm, ih hrest]

/-! ## A machine seen as another one -/

section Simulation
variable {T B : Type} {step' : T → B → Option T} {view : S → T} {label : A → Option B}
  {P' : T → B → Prop}

variable (step step' view label) in
/-- Every step is one of the other machine on the view, or leaves the view alone. -/
def Simulates : Prop :=
  ∀ s a s', step s a = some s' →
    (∀ b, label a = some b → step' (view s) b = some (view s')) ∧
      (label a = none → view s' = view s)

/-- **A run is one of the other machine.** -/
theorem Simulates.run_view (hsim : Simulates step step' view label)
    (h : run step s acts = some s') :
    run step' (view s) (acts.filterMap label) = some (view s') := by
  induction acts generalizing s with
  | nil =>
    obtain rfl := Option.some.inj h
    rfl
  | cons a acts ih =>
    obtain ⟨m, hm, hrest⟩ := exists_of_run_cons h
    obtain ⟨hsome, hnone⟩ := hsim s a m hm
    cases hlabel : label a with
    | none =>
      rw [List.filterMap_cons_none hlabel, ← hnone hlabel]
      exact ih hrest
    | some b =>
      rw [List.filterMap_cons_some hlabel, run_cons (hsome b hlabel)]
      exact ih hrest

/-- A run of a part of the other machine. -/
theorem run_map (put : S → T) (name : A → B)
    (hstep : ∀ s a s', step s a = some s' → step' (put s) (name a) = some (put s'))
    (h : run step s acts = some s') : run step' (put s) (acts.map name) = some (put s') := by
  induction acts generalizing s with
  | nil =>
    obtain rfl := Option.some.inj h
    rfl
  | cons a acts ih =>
    obtain ⟨m, hm, hrest⟩ := exists_of_run_cons h
    rw [List.map_cons, run_cons (hstep s a m hm)]
    exact ih hrest

/-- **A condition on the steps of the view.** -/
theorem Simulates.along_view (hsim : Simulates step step' view label)
    (hP : ∀ s a, P s a ↔ ∀ b, label a = some b → P' (view s) b)
    (h : run step s acts = some s') :
    Along step P s acts ↔ Along step' P' (view s) (acts.filterMap label) := by
  induction acts generalizing s with
  | nil => exact Iff.rfl
  | cons a acts ih =>
    obtain ⟨m, hm, hrest⟩ := exists_of_run_cons h
    obtain ⟨hsome, hnone⟩ := hsim s a m hm
    rw [along_cons hm, hP, ih hrest]
    cases hlabel : label a with
    | none =>
      rw [List.filterMap_cons_none hlabel, hnone hlabel]
      constructor
      · exact And.right
      · intro hacts
        refine ⟨fun b hb => ?_, hacts⟩
        cases hb
    | some b =>
      rw [List.filterMap_cons_some hlabel, along_cons (hsome b hlabel)]
      constructor
      · exact fun hall => ⟨hall.1 b rfl, hall.2⟩
      · rintro ⟨hb, hacts⟩
        refine ⟨fun c hc => ?_, hacts⟩
        rwa [← Option.some.inj hc]

end Simulation

/-! ## Two machines side by side -/

section Beside
variable {T B : Type} {step' : T → B → Option T} {May : S → B → Prop} [∀ s b, Decidable (May s b)]

variable (step step' May) in
/-- Each step is one of either machine; the second one may take only steps the state of
the first one allows. -/
def beside (s : S × T) : A ⊕ B → Option (S × T)
  | .inl a => (step s.1 a).map fun s' => (s', s.2)
  | .inr b => if May s.1 b then (step' s.2 b).map fun t' => (s.1, t') else none

/-- What a step of the two can do. -/
theorem beside_cases {s s' : S × T} {act : A ⊕ B} (h : beside step step' May s act = some s') :
    (∃ a m, act = .inl a ∧ step s.1 a = some m ∧ s' = (m, s.2)) ∨
      ∃ b m, act = .inr b ∧ May s.1 b ∧ step' s.2 b = some m ∧ s' = (s.1, m) := by
  cases act with
  | inl a =>
    obtain ⟨m, hm, rfl⟩ := Option.map_eq_some_iff.mp h
    exact Or.inl ⟨a, m, rfl, hm, rfl⟩
  | inr b =>
    obtain ⟨hmay, h⟩ := Option.ite_none_right_eq_some.mp h
    obtain ⟨m, hm, rfl⟩ := Option.map_eq_some_iff.mp h
    exact Or.inr ⟨b, m, rfl, hmay, hm, rfl⟩

/-- **A run of the two is a run of each.** -/
theorem run_beside {s s' : S × T} {acts : List (A ⊕ B)}
    (h : run (beside step step' May) s acts = some s') :
    run step s.1 (acts.filterMap Sum.getLeft?) = some s'.1 ∧
      run step' s.2 (acts.filterMap Sum.getRight?) = some s'.2 := by
  have hleft : Simulates (beside step step' May) step Prod.fst Sum.getLeft? := by
    intro s act s' hstep
    rcases beside_cases hstep with ⟨a, m, rfl, hm, rfl⟩ | ⟨b, m, rfl, -, -, rfl⟩
    · refine ⟨fun a' ha' => ?_, fun hnone => by cases hnone⟩
      obtain rfl := Option.some.inj ha'
      exact hm
    · exact ⟨fun a' ha' => (by cases ha'), fun _ => rfl⟩
  have hright : Simulates (beside step step' May) step' Prod.snd Sum.getRight? := by
    intro s act s' hstep
    rcases beside_cases hstep with ⟨a, m, rfl, -, rfl⟩ | ⟨b, m, rfl, -, hm, rfl⟩
    · exact ⟨fun b' hb' => (by cases hb'), fun _ => rfl⟩
    · refine ⟨fun b' hb' => ?_, fun hnone => by cases hnone⟩
      obtain rfl := Option.some.inj hb'
      exact hm
  exact ⟨hleft.run_view h, hright.run_view h⟩

end Beside

end Runs
