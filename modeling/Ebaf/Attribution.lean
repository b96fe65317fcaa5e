import Ebaf.EventSequence

/-! # The datagram of a packet

An event does not say which datagram it is about.  `add_event` looks up what the
sender recorded under the number the event gets, so a packet carries the trace id
of its own datagram exactly when the counter stands at that datagram, or nothing
is recorded there.
-/
namespace Ebaf
open CStrings Runs

/-! ## Trace ids -/

/-- **A trace id determines its datagram.** -/
theorem traceIdOf_injective {seq seq' rand rand' : Nat} (hrand : rand < 65535)
    (hrand' : rand' < 65535) (h : traceIdOf seq rand = traceIdOf seq' rand') : seq = seq' := by
  have hlen : ∀ n < 65535, (zeroPadded 4 (hexNumber n)).length = 4 := by
    intro n hn
    exact length_zeroPadded (length_hexNumber_le (by decide) (by omega))
  have hfront : zeroPadded 6 (hexNumber seq) = zeroPadded 6 (hexNumber seq') :=
    (List.append_inj' h ((hlen rand hrand).trans (hlen rand' hrand').symm)).1
  have hvalue := congrArg (hexFrom 0) hfront
  rwa [hexFrom_zeroPadded, hexFrom_zeroPadded, hexFrom_hexNumber, hexFrom_hexNumber] at hvalue

theorem traceIdOf_ne_nil (seq rand : Nat) (hrand : rand < 65535) : traceIdOf seq rand ≠ [] := by
  intro h
  have hlen : (zeroPadded 4 (hexNumber rand)).length = 4 :=
    length_zeroPadded (length_hexNumber_le (by decide) (by omega))
  rw [(List.append_eq_nil_iff.mp h).2] at hlen
  cases hlen

/-! ## The dictionary of the sender -/

theorem mem_dictSet {V : Type} {key : Nat} {value : V} {entries : List (Nat × V)}
    {entry : Nat × V} (h : entry ∈ dictSet key value entries) :
    entry = (key, value) ∨ entry ∈ entries := by
  induction entries with
  | nil => exact Or.inl (List.mem_singleton.mp h)
  | cons first entries ih =>
    rw [dictSet] at h
    split at h
    · rcases List.mem_cons.mp h with h | h
      · exact Or.inl h
      · exact Or.inr (List.mem_cons_of_mem _ h)
    · rcases List.mem_cons.mp h with h | h
      · exact Or.inr (h ▸ List.mem_cons_self ..)
      · rcases ih h with h | h
        · exact Or.inl h
        · exact Or.inr (List.mem_cons_of_mem _ h)

theorem mem_of_lookup {V : Type} {key : Nat} {value : V} {entries : List (Nat × V)}
    (h : entries.lookup key = some value) : (key, value) ∈ entries := by
  obtain ⟨front, back, rfl, -⟩ := List.lookup_eq_some_iff.mp h
  exact List.mem_append_right _ (List.mem_cons_self ..)

/-- What is recorded is the new entry or was there. -/
theorem mem_recordSent {demo : DemoState} {seq : Nat} {metadata : Metadata}
    {entry : Nat × Metadata} (h : entry ∈ (demo.recordSent seq metadata).sentBySeq) :
    entry = (seq, metadata) ∨ entry ∈ demo.sentBySeq := by
  simp only [DemoState.recordSent] at h
  split at h
  · exact mem_dictSet (List.mem_of_mem_drop h)
  · exact mem_dictSet h

namespace Dashboard
variable {loads : CString → Option TcEvent} {s s' : Dashboard} {a : DashboardAct}
  {acts : List DashboardAct} {record : Record}

/-! ## What is recorded -/

/-- The trace ids are those of the datagrams, and every copy of one is right: in the
dictionary, and in a packet under the packet's number. -/
structure Ledger (s : Dashboard) : Prop where
  length : s.traces.length = s.seq
  drawn : ∀ d t, s.traces[d]? = some t → ∃ rand < 65535, t = traceIdOf d rand
  sent : ∀ entry ∈ s.demo.sentBySeq, s.traces[entry.1]? = some entry.2.traceId
  made : ∀ record ∈ s.created, record.packet.traceId ≠ [] →
    s.traces[record.packet.seq]? = some record.packet.traceId

theorem ledger_init (started : Rat) (trafficSource : CString) :
    (init started trafficSource).Ledger where
  length := rfl
  drawn d t h := by cases h
  sent entry h := by cases h
  made record h := by cases h

/-- A trace id that is there stays. -/
theorem getElem?_traces_of_send {rand : Nat} {extras : List Nat} {d : Nat} {t : CString}
    (h : s.traces[d]? = some t) : (s.send rand extras).traces[d]? = some t := by
  have hlt : d < s.traces.length := (List.getElem?_eq_some_iff.mp h).1
  exact (List.getElem?_append_left hlt).trans h

theorem Ledger.send (hs : s.Ledger) {rand : Nat} {extras : List Nat}
    (hdrawn : Drawn s.seq rand extras) : (s.send rand extras).Ledger where
  length := by
    rw [Dashboard.send, List.length_append, hs.length]
    rfl
  drawn d t h := by
    rcases Nat.lt_trichotomy d s.traces.length with hlt | heq | hgt
    · exact hs.drawn d t ((List.getElem?_append_left hlt).symm.trans h)
    · rw [heq, Dashboard.send, List.getElem?_concat_length] at h
      rw [heq, hs.length]
      exact ⟨rand, hdrawn.1, (Option.some.inj h).symm⟩
    · rw [Dashboard.send, List.getElem?_eq_none (by
        rw [List.length_append]
        exact hgt)] at h
      cases h
  sent entry h := by
    rcases mem_recordSent h with rfl | h
    · show (s.traces ++ [traceIdOf s.seq rand])[s.seq]? = some (traceIdOf s.seq rand)
      rw [← hs.length]
      exact List.getElem?_concat_length
    · exact getElem?_traces_of_send (hs.sent entry h)
  made record h hne := getElem?_traces_of_send (hs.made record h hne)

/-- The metadata in a packet was recorded under the packet's number. -/
theorem Ledger.recordOf (hs : s.Ledger) {r : Reader} {time : CString} {datagram : Nat}
    {event : TcEvent} (h : (s.recordOf r time datagram event).packet.traceId ≠ []) :
    s.traces[s.demo.eventCount]? = some (s.recordOf r time datagram event).packet.traceId := by
  cases hlookup : s.demo.sentBySeq.lookup s.demo.eventCount with
  | none =>
    refine absurd ?_ h
    show ((s.demo.sentBySeq.lookup s.demo.eventCount).map Metadata.traceId).getD [] = []
    rw [hlookup]
    rfl
  | some metadata =>
    show _ = some (((s.demo.sentBySeq.lookup s.demo.eventCount).map Metadata.traceId).getD [])
    rw [hlookup]
    exact hs.sent _ (mem_of_lookup hlookup)

theorem Ledger.step (hs : s.Ledger) (h : step loads s a = some s') : s'.Ledger := by
  cases step_cases h with
  | send rand extras hdrawn => exact hs.send hdrawn
  | read r line time datagram event hpc =>
    refine ⟨hs.length, hs.drawn, hs.sent, fun record hrecord hne => ?_⟩
    rcases List.mem_append.mp hrecord with hold | hnew
    · exact hs.made record hold hne
    · obtain rfl := List.mem_singleton.mp hnew
      exact hs.recordOf hne
  | rates r line now hpc =>
    refine ⟨hs.length, hs.drawn, fun entry hentry => ?_, hs.made⟩
    exact hs.sent entry ((DemoState.updateStats_frame s.demo line now).2.1 ▸ hentry)
  | note r line time datagram hpc => exact ⟨hs.length, hs.drawn, hs.sent, hs.made⟩
  | count r record hpc => exact ⟨hs.length, hs.drawn, hs.sent, hs.made⟩
  | insert r record hpc => exact ⟨hs.length, hs.drawn, hs.sent, hs.made⟩

/-! ## Attribution -/

/-- A packet with metadata carries the trace id of the datagram its event is about. -/
def Owns (s : Dashboard) (record : Record) : Prop :=
  record.packet.traceId ≠ [] → s.traces[record.datagram]? = some record.packet.traceId

/-- Every packet stored does. -/
def Attributed (s : Dashboard) : Prop := ∀ record ∈ s.stored, s.Owns record

/-- An event is read when the counter stands at its datagram, or at a number under
which nothing is recorded. -/
def Matches (loads : CString → Option TcEvent) (s : Dashboard) : DashboardAct → Prop :=
  OnEvent loads fun _ datagram =>
    s.demo.eventCount = datagram ∨ s.demo.sentBySeq.lookup s.demo.eventCount = none

instance (s : Dashboard) (a : DashboardAct) : Decidable (Matches loads s a) :=
  inferInstanceAs (Decidable (OnEvent loads _ a))

/-- Every packet made has no metadata or has its datagram's number. -/
def Fitting (s : Dashboard) : Prop :=
  ∀ record ∈ s.created, record.packet.traceId = [] ∨ record.datagram = record.packet.seq

/-- Whose trace id a packet carries is settled when the packet is made. -/
theorem Ledger.owns_iff (hs : s.Ledger) (h : record ∈ s.created) :
    s.Owns record ↔ record.packet.traceId = [] ∨ record.datagram = record.packet.seq := by
  constructor
  · intro howns
    by_cases hne : record.packet.traceId = []
    · exact Or.inl hne
    · -- the trace id is that of the datagram and that of the number
      obtain ⟨rand, hrand, hown⟩ := hs.drawn _ _ (howns hne)
      obtain ⟨rand', hrand', hmade⟩ := hs.drawn _ _ (hs.made record h hne)
      exact Or.inr (traceIdOf_injective hrand hrand' (hown.symm.trans hmade))
  · rintro (hnil | hseq) hne
    · exact absurd hnil hne
    · rw [hseq]
      exact hs.made record h hne

theorem Ledger.recordOf_fits_iff (hs : s.Ledger) (r : Reader) (time : CString) (datagram : Nat)
    (event : TcEvent) :
    ((s.recordOf r time datagram event).packet.traceId = [] ∨ datagram = s.demo.eventCount) ↔
      s.demo.eventCount = datagram ∨ s.demo.sentBySeq.lookup s.demo.eventCount = none := by
  have hnil : (s.recordOf r time datagram event).packet.traceId = [] ↔
      s.demo.sentBySeq.lookup s.demo.eventCount = none := by
    show ((s.demo.sentBySeq.lookup s.demo.eventCount).map Metadata.traceId).getD [] = [] ↔ _
    cases hlookup : s.demo.sentBySeq.lookup s.demo.eventCount with
    | none => exact ⟨fun _ => rfl, fun _ => rfl⟩
    | some metadata =>
      obtain ⟨rand, hrand, htrace⟩ := hs.drawn _ _ (hs.sent _ (mem_of_lookup hlookup))
      constructor
      · intro h
        exact absurd (htrace.symm.trans h) (traceIdOf_ne_nil _ rand hrand)
      · intro h
        cases h
  rw [hnil, or_comm, eq_comm]

/-- **A step leaves the packets fitting exactly when it matches.** -/
theorem fitting_step (s : Dashboard) (a : DashboardAct) (s' : Dashboard) (hs : s.Ledger)
    (h : step loads s a = some s') :
    s'.Ledger ∧ (s'.Fitting ↔ s.Fitting ∧ Matches loads s a) := by
  refine ⟨hs.step h, ?_⟩
  -- a step that makes no packet
  have hsame : s'.created = s.created → Matches loads s a →
      (s'.Fitting ↔ s.Fitting ∧ Matches loads s a) := by
    intro hcreated hmatches
    rw [Fitting, Fitting, hcreated]
    exact ⟨fun hfit => ⟨hfit, hmatches⟩, And.left⟩
  cases step_cases h with
  | read r line time datagram event hpc hevent =>
    have hmatches : Matches loads s (.start r line time datagram) ↔
        s.demo.eventCount = datagram ∨ s.demo.sentBySeq.lookup s.demo.eventCount = none := by
      constructor
      · exact fun hall => hall (by rw [hevent]; exact Option.some_ne_none _)
      · exact fun hread _ => hread
    rw [hmatches, ← hs.recordOf_fits_iff r time datagram event]
    exact List.forall_mem_append.trans (and_congr_right fun _ => List.forall_mem_singleton)
  | note r line time datagram hpc hevent => exact hsame rfl fun hne => absurd hevent hne
  | send rand extras => exact hsame rfl trivial
  | count r record hpc => exact hsame rfl trivial
  | insert r record hpc => exact hsame rfl trivial
  | rates r line now hpc => exact hsame rfl trivial

theorem Kept.mem_created (hs : s.Kept) (h : record ∈ s.stored) : record ∈ s.created :=
  hs.mem_iff.mpr (List.mem_append_left _ h)

/-- Fitting packets carry their own trace ids. -/
theorem Fitting.attributed (hs : s.Fitting) (hledger : s.Ledger) (hkept : s.Kept) :
    s.Attributed := by
  intro record hrecord
  have hmade := hkept.mem_created hrecord
  exact (hledger.owns_iff hmade).mpr (hs record hmade)

/-- **Packets carry the trace id of their own datagram as long as every event is read
when the counter stands at its datagram or at a number with nothing recorded; in a
finished run only then.** -/
theorem attributed_iff_matches (loads : CString → Option TcEvent) (started : Rat)
    (trafficSource : CString) (acts : List DashboardAct) (s : Dashboard)
    (hrun : run (step loads) (init started trafficSource) acts = some s) :
    (Along (step loads) (Matches loads) (init started trafficSource) acts →
      Always (step loads) Attributed (init started trafficSource) acts) ∧
    (s.Idle → (s.Attributed ↔
      Along (step loads) (Matches loads) (init started trafficSource) acts)) := by
  have hledger := ledger_init started trafficSource
  have hkept := kept_init started trafficSource
  have hfitting : (init started trafficSource).Fitting := fun record h => by cases h
  constructor
  · refine always_of_along (I := fun s => s.Ledger ∧ s.Kept ∧ s.Fitting) ?_ ?_
      ⟨hledger, hkept, hfitting⟩
    · rintro m a m' ⟨hm, hk, hf⟩ ha hstep
      exact ⟨hm.step hstep, hk.step hstep, (fitting_step m a m' hm hstep).2.mpr ⟨hf, ha⟩⟩
    · rintro m ⟨hm, hk, hf⟩
      exact hf.attributed hm hk
  · intro hidle
    -- nothing is in flight, so a packet that does not fit has been stored
    have hmade := (hkept.run hrun).perm_of_idle hidle
    have hend : s.Ledger := run_invariant (fun _ _ _ hm hstep => hm.step hstep) hledger hrun
    have hiff := (iff_along fitting_step hledger hrun).trans (and_iff_right hfitting)
    rw [← hiff]
    constructor
    · intro hattributed record hrecord
      exact (hend.owns_iff hrecord).mp (hattributed record (hmade.mem_iff.mp hrecord))
    · exact fun hfit => hfit.attributed hend (hkept.run hrun)

/-- Two datagrams and their encrypt events. -/
def encryptOnly : List DashboardAct :=
  [.send 7 [], .send 7 [10]] ++ (deliver .encrypt 0 ++ deliver .encrypt 1)

theorem attributed_encrypt_only : ∃ s : Dashboard,
    run (step plainLoads) (init 0 []) encryptOnly = some s ∧ s.Idle ∧ s.Attributed := by
  have hmatches : Along (step plainLoads) (Matches plainLoads) (init 0 []) encryptOnly := by
    decide +kernel
  have hend : (run (step plainLoads) (init 0 []) encryptOnly).any fun s => s.Idle := by
    decide +kernel
  obtain ⟨s, hrun, hs⟩ := (Option.any_eq_true ..).mp hend
  have hidle := of_decide_eq_true hs
  exact ⟨s, hrun, hidle,
    ((attributed_iff_matches plainLoads 0 [] _ s hrun).2 hidle).mpr hmatches⟩

/-! ## One event a side -/

/-- The datagrams a reader has had events about. -/
def datagramsOf (s : Dashboard) (r : Reader) : List Nat :=
  (s.created.filter fun record => record.reader = r).map Record.datagram

/-- A process reports a datagram once, the encrypting one after it was sent and the
decrypting one after that. -/
def Reported (loads : CString → Option TcEvent) (s : Dashboard) : DashboardAct → Prop :=
  OnEvent loads fun r datagram => datagram < s.seq ∧ datagram ∉ s.datagramsOf r ∧
    (r = .decrypt → datagram ∈ s.datagramsOf .encrypt)

instance (s : Dashboard) (a : DashboardAct) : Decidable (Reported loads s a) :=
  inferInstanceAs (Decidable (OnEvent loads _ a))

instance (s : Dashboard) : Decidable s.Attributed :=
  inferInstanceAs (Decidable (∀ record ∈ s.stored, record.packet.traceId ≠ [] → _ = _))

/-- A batch of sixteen datagrams, and the events about them: the decrypt event of the
first one comes second. -/
def decryptSecond : List DashboardAct :=
  ((List.range 16).map fun i => .send 0 (List.replicate (i % 5) 10)) ++
    (deliver .encrypt 0 ++ (deliver .decrypt 0 ++
      (List.range 15).flatMap fun i => deliver .encrypt (i + 1)))

/-- **A decrypt event moves the numbers on**: after a batch of sixteen datagrams the
second event is the decrypt event of datagram 0, and its packet carries the trace id of
datagram 1. -/
theorem not_attributed : ¬ ∀ (loads : CString → Option TcEvent) (started : Rat)
    (trafficSource : CString) (acts : List DashboardAct) (s : Dashboard),
    run (step loads) (init started trafficSource) acts = some s →
    Along (step loads) (Reported loads) (init started trafficSource) acts →
    (∀ datagram < s.seq, datagram ∈ s.datagramsOf .encrypt) → s.Idle → s.Attributed := by
  intro h
  have hend : (run (step plainLoads) (init 0 []) decryptSecond).any fun s =>
      s.Idle ∧ (∀ datagram < s.seq, datagram ∈ s.datagramsOf .encrypt) ∧ ¬ s.Attributed := by
    decide +kernel
  have hreported : Along (step plainLoads) (Reported plainLoads) (init 0 []) decryptSecond := by
    decide +kernel
  obtain ⟨s, hrun, hs⟩ := (Option.any_eq_true ..).mp hend
  obtain ⟨hidle, hall, hnot⟩ := of_decide_eq_true hs
  exact hnot (h plainLoads 0 [] decryptSecond s hrun hreported hall hidle)

/-! ## The encrypting side alone -/

/-- Events come from the encrypting process, for every datagram in turn. -/
def InOrder (loads : CString → Option TcEvent) (s : Dashboard) : DashboardAct → Prop :=
  OnEvent loads fun r datagram => r = .encrypt ∧ datagram = s.created.length

/-- The decrypting reader has not taken the counter. -/
def DecryptApart (s : Dashboard) : Prop := (s.pc .decrypt).uncounted = none

theorem decryptApart_step (hs : s.DecryptApart) (ha : InOrder loads s a)
    (h : step loads s a = some s') : s'.DecryptApart := by
  have hmove : ∀ r p, (r = .decrypt → p.uncounted = none) →
      (Function.update s.pc r p .decrypt).uncounted = none := by
    intro r p hp
    cases r with
    | encrypt =>
      rw [Function.update_of_ne (by decide)]
      exact hs
    | decrypt =>
      rw [Function.update_self]
      exact hp rfl
  cases step_cases h with
  | send rand extras => exact hs
  | read r line time datagram event hpc hevent =>
    obtain ⟨rfl, -⟩ := ha (by rw [hevent]; exact Option.some_ne_none _)
    have hread := hmove .encrypt (.read (s.recordOf .encrypt time datagram event))
    exact hread fun hr => by cases hr
  | note r line time datagram hpc => exact hmove r _ fun _ => rfl
  | count r record hpc => exact hmove r _ fun _ => rfl
  | insert r record hpc => exact hmove r _ fun _ => rfl
  | rates r line now hpc => exact hmove r _ fun _ => rfl

theorem countedFirst_of_inOrder (hs : s.DecryptApart) (ha : InOrder loads s a)
    (h : step loads s a = some s') : CountedFirst loads s a := by
  cases step_cases h with
  | read r line time datagram event hpc =>
    intro hevent r'
    obtain ⟨rfl, -⟩ := ha hevent
    cases r' with
    | encrypt =>
      rw [hpc]
      exact fun _ => Pc.noConfusion
    | decrypt => exact uncounted_eq_none_iff.mp hs
  | note r line time datagram hpc hevent => exact fun hne => absurd hevent hne
  | send rand extras => trivial
  | count r record hpc => trivial
  | insert r record hpc => trivial
  | rates r line now hpc => trivial

/-- **Then every event is read when the counter stands at its datagram.** -/
theorem matches_of_inOrder {started : Rat} {trafficSource : CString}
    (h : Along (step loads) (InOrder loads) (init started trafficSource) acts)
    (hrun : run (step loads) (init started trafficSource) acts = some s) :
    Along (step loads) (Matches loads) (init started trafficSource) acts := by
  refine along_mono
    (I := fun s => SplitCounter.Numbered s.counter ∧ s.DecryptApart) ?_
    ⟨numbered_counter_init started trafficSource, rfl⟩ h hrun
  rintro m a m' ⟨hnumbered, hapart⟩ ha hstep
  have hfirst := countedFirst_of_inOrder hapart ha hstep
  refine ⟨?_, numbered_step hnumbered hfirst hstep, decryptApart_step hapart ha hstep⟩
  cases a with
  | start r line time datagram =>
    intro hevent
    obtain ⟨-, hdatagram⟩ := ha hevent
    have hquiet : SplitCounter.Quiet m.counter := fun r' =>
      uncounted_eq_none_iff.mpr (hfirst hevent r')
    have hlength := congrArg List.length (hnumbered.values_of_quiet hquiet)
    rw [List.length_range, counter, List.length_map] at hlength
    exact Or.inl (hlength.symm.trans hdatagram.symm)
  | send rand extras => trivial
  | count r => trivial
  | insert r => trivial
  | rates r now => trivial

end Dashboard
end Ebaf
