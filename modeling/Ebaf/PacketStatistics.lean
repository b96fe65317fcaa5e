import Ebaf.FramedRoundTrip

/-! # The statistics map over a whole run

`crypto_stats` is a per-CPU map that the attached programs share: a packet
changes the entry of the CPU it is processed on and no other.  Packets arrive in
any order on any CPU, and the kernel's answers (configuration, context, failed
calls) may be different for each.  `ebaf_bpf_print_stats` sums the entries.
-/
namespace Ebaf
open EarlyExit

variable {Ctx : Type} {cpus : Nat}

/-- The map `crypto_stats`: one entry for each possible CPU. -/
abbrev StatsMap (cpus : Nat) := Fin cpus → EbafCryptoStats

/-- The entry after a program has processed a packet. -/
def countPacket (p : PacketProg Ctx Unit) (f : Frame) (st : EbafCryptoStats) : EbafCryptoStats :=
  (p.exec ⟨f, some st, [], []⟩).stats.getD st

/-- A packet and what it meets: the CPU, the program with the kernel's answers,
and the frame. -/
structure Arrival (Ctx : Type) (cpus : Nat) where
  cpu : Fin cpus
  prog : PacketProg Ctx Unit
  frame : Frame

namespace StatsMap

/-- A map as it is created. -/
def zero : StatsMap cpus := fun _ => EbafCryptoStats.zero

/-- One packet is processed. -/
def step (m : StatsMap cpus) (a : Arrival Ctx cpus) : StatsMap cpus :=
  Function.update m a.cpu (countPacket a.prog a.frame (m a.cpu))

/-- The packets of a list are processed, one after the other. -/
def run (m : StatsMap cpus) (l : List (Arrival Ctx cpus)) : StatsMap cpus := l.foldl step m

/-- Every entry is balanced. -/
def AllBalanced (m : StatsMap cpus) : Prop := ∀ cpu, (m cpu).Balanced

theorem zero_allBalanced : (zero : StatsMap cpus).AllBalanced :=
  fun _ => EbafCryptoStats.zero_balanced

/-- A packet that is accounted for keeps every entry balanced. -/
theorem AllBalanced.step {m : StatsMap cpus} (h : m.AllBalanced) {a : Arrival Ctx cpus}
    (ha : (countPacket a.prog a.frame (m a.cpu)).Balanced) : (m.step a).AllBalanced := by
  intro cpu
  by_cases hc : cpu = a.cpu
  · subst hc
    rw [StatsMap.step, Function.update_self]
    exact ha
  · rw [StatsMap.step, Function.update_of_ne hc]
    exact h cpu

/-- **If every packet of a run keeps its entry balanced, the run keeps the map
balanced.** -/
theorem AllBalanced.run (l : List (Arrival Ctx cpus))
    (hl : ∀ a ∈ l, ∀ st : EbafCryptoStats, st.Balanced →
      (countPacket a.prog a.frame st).Balanced) :
    ∀ {m : StatsMap cpus}, m.AllBalanced → (m.run l).AllBalanced := by
  induction l with
  | nil => exact fun h => h
  | cons a l ih =>
    intro m h
    exact ih (fun b hb => hl b (List.mem_cons_of_mem _ hb))
      (h.step (hl a List.mem_cons_self _ (h a.cpu)))

/-- The totals `ebaf_bpf_print_stats` prints: `total` starts zeroed, and the loop
over the CPUs adds entry after entry. -/
def ebafBpfPrintStats (m : StatsMap cpus) : EbafCryptoStats :=
  (List.ofFn m).foldl EbafCryptoStats.add EbafCryptoStats.zero

/-- The totals of balanced entries are balanced. -/
theorem AllBalanced.print {m : StatsMap cpus} (h : m.AllBalanced) :
    m.ebafBpfPrintStats.Balanced := by
  have hsum : ∀ (l : List EbafCryptoStats) (total : EbafCryptoStats), total.Balanced →
      (∀ st ∈ l, st.Balanced) → (l.foldl EbafCryptoStats.add total).Balanced := by
    intro l
    induction l with
    | nil => exact fun _ ht _ => ht
    | cons st l ih =>
      intro total ht hl
      exact ih _ (ht.add (hl st List.mem_cons_self)) fun st' h' => hl st' (List.mem_cons_of_mem _ h')
  refine hsum _ _ EbafCryptoStats.zero_balanced fun st hst => ?_
  obtain ⟨cpu, rfl⟩ := (List.mem_ofFn).mp hst
  exact h cpu

end StatsMap

/-! ## The framed programs -/

/-- A framed program disposes of every packet in exactly one way. -/
theorem FramedEnd.accounted {K : CryptoKernel Ctx} {e : Env Ctx}
    {accepts : EbafCryptoConfig → Prop} {dir : EbafCryptoConfig → Option Direction}
    {s s' : PacketState Ctx} (h : FramedEnd K e accepts dir s s') :
    ∃ d, s'.stats = (s.accounted d).stats := by
  cases h with
  | refused _ hs =>
    obtain ⟨d, _, rfl⟩ := hs
    exact ⟨d, rfl⟩
  | failed _ _ _ _ _ hs =>
    subst hs
    exact ⟨.cryptoFail, rfl⟩
  | transformed _ _ _ _ _ hs =>
    subst hs
    exact ⟨.cryptoOk, rfl⟩

theorem FramedProgram.countPacket_balanced (p : FramedProgram) (K : CryptoKernel Ctx)
    (e : Env Ctx) (f : Frame) {st : EbafCryptoStats} (h : st.Balanced) :
    (countPacket (p.run K e) f st).Balanced := by
  obtain ⟨d, hd⟩ := (p.spec K e ⟨f, some st, [], []⟩).accounted
  rw [countPacket, hd]
  exact h.account d

/-- **The statistics of the framed programs account for every packet**: in every
run of `xdp_crypto` and `tc_crypto`, in any order and on any CPUs, with whatever
configuration, context and failures each packet meets, the printed totals
satisfy `seen = passed + crypto_ok + crypto_fail + malformed` and `malformed` is
the sum of the seven reasons. -/
theorem framed_statistics_balanced (K : CryptoKernel Ctx)
    (l : List (Fin cpus × FramedProgram × Env Ctx × Frame)) :
    ((StatsMap.zero : StatsMap cpus).run
      (l.map fun (cpu, p, e, f) =>
        (⟨cpu, p.run K e, f⟩ : Arrival Ctx cpus))).ebafBpfPrintStats.Balanced := by
  refine (StatsMap.zero_allBalanced.run _ ?_).print
  intro a ha st hst
  obtain ⟨⟨cpu, p, e, f⟩, -, rfl⟩ := List.mem_map.mp ha
  exact p.countPacket_balanced K e f hst

end Ebaf
