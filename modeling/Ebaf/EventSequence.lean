import Ebaf.Dashboard
import Ebaf.SplitCounter

/-! # The numbers of the events

`add_event` takes `event_count` in one section and advances it in another.  Seen
from the counter the readers are the threads of a split counter, so the packets
are numbered without gaps exactly when no reader takes the counter while the
other one is between its two sections.
-/
namespace Ebaf
open CStrings Runs

/-- The number a reader has taken and not counted. -/
def Pc.uncounted : Pc → Option Nat
  | .read record => some record.packet.seq
  | _ => none

namespace Dashboard
variable {loads : CString → Option TcEvent} {s s' : Dashboard} {a : DashboardAct}
  {acts : List DashboardAct}

/-- The counter, and the numbers taken from it. -/
def counter (s : Dashboard) : SplitCounter.State Reader where
  count := s.demo.eventCount
  held := fun r => (s.pc r).uncounted
  values := s.created.map fun record => record.packet.seq

theorem counter_held (r : Reader) : s.counter.held r = (s.pc r).uncounted := rfl

/-- What a step does to the counter. -/
def counterAct (loads : CString → Option TcEvent) : DashboardAct → Option (SplitCounter.Act Reader)
  | .start r line _ _ => (lineEvent loads (r.handedOn line)).map fun _ => .read r
  | .count r => some (.advance r)
  | _ => none

/-- No reader takes the counter for an event while a reader has taken it and not
counted. -/
def CountedFirst (loads : CString → Option TcEvent) (s : Dashboard) : DashboardAct → Prop :=
  OnEvent loads fun _ _ => ∀ r record, s.pc r ≠ .read record

theorem uncounted_eq_none_iff {p : Pc} : p.uncounted = none ↔ ∀ record, p ≠ .read record := by
  cases p with
  | read record => exact ⟨fun h => (by cases h), fun h => absurd rfl (h record)⟩
  | idle => exact ⟨fun _ _ => Pc.noConfusion, fun _ => rfl⟩
  | counted record => exact ⟨fun _ _ => Pc.noConfusion, fun _ => rfl⟩
  | noted line => exact ⟨fun _ _ => Pc.noConfusion, fun _ => rfl⟩

/-- A reader that moves on, as the counter sees it. -/
theorem uncounted_update (r : Reader) (p : Pc) :
    (fun r' => (Function.update s.pc r p r').uncounted) =
      Function.update (fun r' => (s.pc r').uncounted) r p.uncounted := by
  funext r'
  by_cases h : r' = r
  · rw [h, Function.update_self, Function.update_self]
  · rw [Function.update_of_ne h, Function.update_of_ne h]

theorem uncounted_update_same {r : Reader} {p : Pc} (h : (s.pc r).uncounted = none)
    (hp : p.uncounted = none) :
    (fun r' => (Function.update s.pc r p r').uncounted) = fun r' => (s.pc r').uncounted := by
  rw [uncounted_update, hp, ← h]
  exact Function.update_eq_self r _

/-- A move of a reader that leaves the counter alone. -/
theorem counter_move {t : Dashboard} {r : Reader} {p : Pc} (hpc : t.pc = Function.update s.pc r p)
    (h : (s.pc r).uncounted = none) (hp : p.uncounted = none)
    (hcount : t.demo.eventCount = s.demo.eventCount) (hcreated : t.created = s.created) :
    t.counter = s.counter := by
  rw [counter, counter, hpc, hcount, hcreated, uncounted_update_same h hp]

theorem counterAct_event {r : Reader} {line time : CString} {datagram : Nat} {event : TcEvent}
    (h : lineEvent loads (r.handedOn line) = some event) :
    counterAct loads (.start r line time datagram) = some (.read r) := by
  rw [counterAct, h]
  rfl

theorem counterAct_line {r : Reader} {line time : CString} {datagram : Nat}
    (h : lineEvent loads (r.handedOn line) = none) :
    counterAct loads (.start r line time datagram) = none := by
  rw [counterAct, h]
  rfl

/-- The first section of `add_event` reads the counter. -/
theorem counter_read {r : Reader} (hpc : s.pc r = .idle) (time : CString) (datagram : Nat)
    (event : TcEvent) : SplitCounter.step s.counter (.read r) =
      some (s.read r (s.recordOf r time datagram event)).counter := by
  have hfree : s.counter.held r = none := by
    rw [counter_held, hpc]
    rfl
  rw [SplitCounter.step, if_pos hfree, counter, counter]
  simp only [Dashboard.read, uncounted_update, List.map_append]
  rfl

/-- The second section advances it. -/
theorem counter_count {r : Reader} {record : Record} (hpc : s.pc r = .read record) :
    SplitCounter.step s.counter (.advance r) = some (s.count r record).counter := by
  have htaken : s.counter.held r ≠ none := by
    rw [counter_held, hpc]
    exact Option.some_ne_none _
  rw [SplitCounter.step, if_neg htaken, counter, counter]
  simp only [Dashboard.count, uncounted_update]
  rfl

/-- **The readers are the threads of a split counter.** -/
theorem counter_simulates :
    Simulates (step loads) SplitCounter.step counter (counterAct loads) := by
  intro s a s' h
  cases step_cases h with
  | send rand extras => exact ⟨fun b hb => (by cases hb), fun _ => rfl⟩
  | read r line time datagram event hpc hevent =>
    rw [counterAct_event hevent]
    refine ⟨fun b hb => ?_, fun hnone => (by cases hnone)⟩
    obtain rfl := Option.some.inj hb
    exact counter_read hpc time datagram event
  | note r line time datagram hpc hevent =>
    rw [counterAct_line hevent]
    refine ⟨fun b hb => (by cases hb), fun _ => ?_⟩
    exact counter_move rfl (by rw [hpc]; rfl) rfl rfl rfl
  | count r record hpc =>
    refine ⟨fun b hb => ?_, fun hnone => (by cases hnone)⟩
    obtain rfl := Option.some.inj hb
    exact counter_count hpc
  | insert r record hpc =>
    refine ⟨fun b hb => (by cases hb), fun _ => ?_⟩
    exact counter_move rfl (by rw [hpc]; rfl) rfl rfl rfl
  | rates r line now hpc =>
    refine ⟨fun b hb => (by cases hb), fun _ => ?_⟩
    have hframe := DemoState.updateStats_frame s.demo line now
    exact counter_move rfl (by rw [hpc]; rfl) rfl hframe.2.2 rfl

/-- A step takes the counter first exactly when its thread is alone. -/
theorem countedFirst_iff : CountedFirst loads s a ↔
    ∀ b, counterAct loads a = some b → SplitCounter.Alone s.counter b := by
  constructor
  · intro h b hb t ht r'
    subst ht
    cases a with
    | start r line time datagram =>
      obtain ⟨event, hevent, hr⟩ := Option.map_eq_some_iff.mp hb
      have hall := h (by rw [hevent]; exact Option.some_ne_none _)
      exact uncounted_eq_none_iff.mpr (hall r')
    | count r => cases hb
    | send rand extras => cases hb
    | insert r => cases hb
    | rates r now => cases hb
  · intro h
    cases a with
    | start r line time datagram =>
      intro hevent r'
      obtain ⟨event, hevent⟩ := Option.ne_none_iff_exists'.mp hevent
      exact uncounted_eq_none_iff.mp (h (.read r) (counterAct_event hevent) r rfl r')
    | count r => trivial
    | send rand extras => trivial
    | insert r => trivial
    | rates r now => trivial

instance (p : Pc) : Decidable (∀ record, p ≠ .read record) :=
  decidable_of_iff _ uncounted_eq_none_iff

instance (s : Dashboard) (a : DashboardAct) : Decidable (CountedFirst loads s a) :=
  inferInstanceAs (Decidable (OnEvent loads _ a))

/-- What a step that takes the counter first does to the numbers. -/
theorem numbered_step (hs : SplitCounter.Numbered s.counter) (ha : CountedFirst loads s a)
    (h : step loads s a = some s') : SplitCounter.Numbered s'.counter := by
  obtain ⟨hsome, hnone⟩ := counter_simulates s a s' h
  cases hact : counterAct loads a with
  | none =>
    rw [hnone hact]
    exact hs
  | some b => exact hs.step (countedFirst_iff.mp ha b hact) (hsome b hact)

/-! ## The packets shown -/

/-- The packets shown are the last eighty stored, the last one first. -/
def Shown (s : Dashboard) : Prop :=
  s.demo.packets = ((s.stored.map Record.packet).reverse).take 80

theorem Shown.step (hs : s.Shown) (h : step loads s a = some s') : s'.Shown := by
  cases step_cases h with
  | insert r record hpc =>
    show (record.packet :: s.demo.packets).take 80 = _
    rw [hs, Dashboard.insert, List.map_append, List.reverse_append, List.map_singleton,
      List.reverse_singleton, List.singleton_append, List.take_succ_cons, List.take_succ_cons,
      List.take_take]
    rfl
  | rates r line now hpc => exact (DemoState.updateStats_frame s.demo line now).1.trans hs
  | send rand extras => exact hs
  | read r line time datagram event hpc => exact hs
  | note r line time datagram hpc => exact hs
  | count r record hpc => exact hs

theorem shown_init (started : Rat) (trafficSource : CString) :
    (init started trafficSource).Shown := rfl

theorem shown_run {started : Rat} {trafficSource : CString}
    (h : run (step loads) (init started trafficSource) acts = some s) : s.Shown :=
  run_invariant (fun _ _ _ hm hstep => Shown.step hm hstep) (shown_init ..) h

/-! ## A finished run -/

/-- The packets stored are numbered from zero without gaps, the counter says how many
they are, and no two packets shown have one number. -/
def Numbered (s : Dashboard) : Prop :=
  (s.stored.map fun record => record.packet.seq).Perm (List.range s.stored.length) ∧
    s.demo.eventCount = s.stored.length ∧
    (s.demo.packets.map DemoPacket.seq).Nodup

theorem numbered_counter_init (started : Rat) (trafficSource : CString) :
    SplitCounter.Numbered (init started trafficSource).counter :=
  Or.inl ⟨fun _ => rfl, rfl⟩

/-- **Once every call has finished the numbers are right exactly when no event was read
while a reader had taken the counter and not advanced it.** -/
theorem numbered_iff_countedFirst (loads : CString → Option TcEvent) (started : Rat)
    (trafficSource : CString) (acts : List DashboardAct) (s : Dashboard)
    (hrun : run (step loads) (init started trafficSource) acts = some s) (hidle : s.Idle) :
    s.Numbered ↔ Along (step loads) (CountedFirst loads) (init started trafficSource) acts := by
  have hstored : s.created.Perm s.stored :=
    ((kept_init started trafficSource).run hrun).perm_of_idle hidle
  have hvalues := hstored.map fun record => record.packet.seq
  have hview := counter_simulates.run_view hrun
  have hnumbered := numbered_counter_init started trafficSource
  rw [counter_simulates.along_view (fun _ _ => countedFirst_iff) hrun]
  constructor
  · -- the numbers stored are the values taken from the counter
    rintro ⟨hperm, -, -⟩
    have hnodup : s.counter.values.Nodup :=
      (hvalues.trans hperm).nodup_iff.mpr List.nodup_range
    exact (SplitCounter.nodup_iff_alone hnumbered hview).mp hnodup
  · intro halone
    have hquiet : SplitCounter.Quiet s.counter := by
      intro r
      rw [counter_held, hidle r]
      rfl
    have hrange := (hnumbered.run halone hview).values_of_quiet hquiet
    have hcount : s.demo.eventCount = s.stored.length := by
      have hlength : s.counter.values.length = s.counter.count := by
        rw [hrange, List.length_range]
      rw [← hstored.length_eq]
      exact hlength.symm.trans (List.length_map _)
    refine ⟨?_, hcount, ?_⟩
    · rw [← hcount]
      exact hvalues.symm.trans (hrange ▸ List.Perm.refl _)
    · have hall : (s.stored.map fun record => record.packet.seq).Nodup := by
        have hnodup : s.counter.values.Nodup := hrange ▸ List.nodup_range
        exact hvalues.nodup_iff.mp hnodup
      rw [shown_run hrun, List.map_take, List.map_reverse, List.map_map]
      exact ((List.reverse_perm _).nodup_iff.mpr hall).sublist (List.take_sublist _ _)

/-- Two events, one after the other. -/
theorem numbered_one_after_other : ∃ s : Dashboard,
    run (step plainLoads) (init 0 []) (deliver .encrypt 0 ++ deliver .decrypt 0) = some s ∧
      s.Idle ∧ s.Numbered := by
  have hfirst : Along (step plainLoads) (CountedFirst plainLoads) (init 0 [])
      (deliver .encrypt 0 ++ deliver .decrypt 0) := by
    decide +kernel
  have hend : (run (step plainLoads) (init 0 []) (deliver .encrypt 0 ++ deliver .decrypt 0)).any
      fun s => s.Idle := by
    decide +kernel
  obtain ⟨s, hrun, hs⟩ := (Option.any_eq_true ..).mp hend
  have hidle := of_decide_eq_true hs
  exact ⟨s, hrun, hidle, (numbered_iff_countedFirst plainLoads 0 [] _ s hrun hidle).mpr hfirst⟩

/-- **Both readers take the number 0**: two events, each reader's section with the read
before the other's section with the increment. -/
theorem not_numbered : ¬ ∀ (loads : CString → Option TcEvent) (started : Rat)
    (trafficSource : CString) (acts : List DashboardAct) (s : Dashboard),
    run (step loads) (init started trafficSource) acts = some s → s.Idle → s.Numbered := by
  intro h
  have hnumbered := (h plainLoads 0 []
    [.start .encrypt plainLine [] 0, .start .decrypt plainLine [] 0, .count .encrypt,
      .count .decrypt, .insert .encrypt, .insert .decrypt] _ rfl
    (by intro r; cases r <;> rfl)).2.2
  have hnodup : [0, 0].Nodup := hnumbered
  exact absurd hnodup (by decide)

end Dashboard
end Ebaf
