import Ebaf.Kernel

/-! # What one packet adds to the statistics

Every packet is counted as seen.  A program that accounts for it properly then
counts exactly one *disposition*: passed, transformed, failed, or malformed for
one named reason.  `Balanced` is what that keeps true of the counters over a
whole run, on one CPU and in the sum over all of them: 64-bit counters wrap, so
the equations are those of arithmetic modulo `2 ^ 64`.
-/
namespace Ebaf
open EarlyExit

/-- The counters that name a reason for a malformed packet. -/
def Counter.isReason : Counter → Bool
  | .packetsBadEth | .packetsBadIp | .packetsBadUdp | .packetsBadMagic | .packetsBadLength
  | .packetsBadAlignment | .packetsNoCryptoCtx => true
  | _ => false

/-- How a packet is accounted for. -/
inductive Disposition where
  | passed
  | cryptoOk
  | cryptoFail
  | malformed (reason : Counter) (h : reason.isReason = true)

/-- What a disposition adds to the counters. -/
def Disposition.count : Disposition → EbafCryptoStats → EbafCryptoStats
  | .passed => EbafCryptoStats.inc .packetsPassed
  | .cryptoOk => EbafCryptoStats.inc .packetsCryptoOk
  | .cryptoFail => EbafCryptoStats.inc .packetsCryptoFail
  | .malformed c _ => EbafCryptoStats.reason c

/-- Only a transformed packet is counted as such. -/
theorem Disposition.count_cryptoOk {d : Disposition} (hd : d ≠ .cryptoOk) (st : EbafCryptoStats) :
    d.count st .packetsCryptoOk = st .packetsCryptoOk := by
  cases d with
  | passed => rfl
  | cryptoOk => exact absurd rfl hd
  | cryptoFail => rfl
  | malformed c hc =>
    have hne : Counter.packetsCryptoOk ≠ c := by
      rintro rfl
      cases hc
    exact (EbafCryptoStats.inc_of_ne hne _).trans rfl

namespace EbafCryptoStats

/-- One packet seen and disposed of. -/
def account (d : Disposition) (st : EbafCryptoStats) : EbafCryptoStats :=
  d.count (st.inc .packetsSeen)

/-- The sum of the counters that name a reason. -/
def reasons (st : EbafCryptoStats) : UInt64 :=
  st .packetsBadEth + st .packetsBadIp + st .packetsBadUdp + st .packetsBadMagic +
    st .packetsBadLength + st .packetsBadAlignment + st .packetsNoCryptoCtx

/-- **The counters account for every packet**, modulo `2 ^ 64`. -/
structure Balanced (st : EbafCryptoStats) : Prop where
  seen : st .packetsSeen = st .packetsPassed + st .packetsCryptoOk + st .packetsCryptoFail +
    st .packetsMalformed
  malformed : st .packetsMalformed = st.reasons

/-- A counter map is created zeroed. -/
def zero : EbafCryptoStats := fun _ => 0

theorem zero_balanced : Balanced zero := ⟨rfl, rfl⟩

/-- Of the twelve counters, the seven reasons are those `reasons` sums. -/
theorem reasons_inc (c : Counter) (st : EbafCryptoStats) :
    (st.inc c).reasons = st.reasons + if c.isReason then 1 else 0 := by
  cases c <;> simp only [reasons, inc, Counter.isReason, reduceCtorEq, ite_true, ite_false] <;>
    grind

/-- **Accounting for one packet keeps the counters balanced.** -/
theorem Balanced.account {st : EbafCryptoStats} (h : st.Balanced) (d : Disposition) :
    (st.account d).Balanced := by
  obtain ⟨hs, hm⟩ := h
  cases d with
  | passed | cryptoOk | cryptoFail =>
    refine ⟨?_, ?_⟩
    · simp only [EbafCryptoStats.account, Disposition.count, inc, reduceCtorEq, ite_true,
        ite_false]
      grind
    · rw [EbafCryptoStats.account, Disposition.count, reasons_inc, reasons_inc]
      simpa [inc, Counter.isReason] using hm
  | malformed c hc =>
    have hne : ∀ c', c'.isReason = false → c' ≠ c := fun _ h' he => by simp [← he, h'] at hc
    refine ⟨?_, ?_⟩
    · simp only [EbafCryptoStats.account, Disposition.count, reason, inc, reduceCtorEq, ite_true,
        ite_false, hne .packetsSeen rfl, hne .packetsPassed rfl,
        hne .packetsCryptoOk rfl, hne .packetsCryptoFail rfl,
        hne .packetsMalformed rfl]
      grind
    · rw [EbafCryptoStats.account, Disposition.count, reason, reasons_inc, reasons_inc,
        reasons_inc, inc_of_ne (hne _ rfl), inc_self, inc_of_ne (by decide), hm, hc]
      simp [Counter.isReason]

/-- The sum of the four classes a packet can be counted in. -/
def outcomes (st : EbafCryptoStats) : UInt64 :=
  st .packetsPassed + st .packetsCryptoOk + st .packetsCryptoFail + st .packetsMalformed

/-- A disposition is counted in exactly one class. -/
theorem outcomes_count (d : Disposition) (st : EbafCryptoStats) :
    (d.count st).outcomes = st.outcomes + 1 := by
  cases d with
  | passed | cryptoOk | cryptoFail =>
    simp only [outcomes, Disposition.count, inc, reduceCtorEq, ite_true, ite_false]
    grind
  | malformed c hc =>
    have hne : ∀ c', c'.isReason = false → c' ≠ c := fun _ h' he => by simp [← he, h'] at hc
    simp only [outcomes, Disposition.count, reason, inc, reduceCtorEq, ite_true, ite_false,
      hne .packetsPassed rfl, hne .packetsCryptoOk rfl, hne .packetsCryptoFail rfl,
      hne .packetsMalformed rfl]
    grind

theorem outcomes_account (d : Disposition) (st : EbafCryptoStats) :
    (st.account d).outcomes = st.outcomes + 1 :=
  outcomes_count d (st.inc .packetsSeen)

/-- Counters summed entry by entry, as the loader prints them. -/
def add (st st' : EbafCryptoStats) : EbafCryptoStats := fun c => st c + st' c

theorem Balanced.add {st st' : EbafCryptoStats} (h : st.Balanced) (h' : st'.Balanced) :
    (st.add st').Balanced := by
  obtain ⟨hs, hm⟩ := h
  obtain ⟨hs', hm'⟩ := h'
  refine ⟨?_, ?_⟩
  · simp only [EbafCryptoStats.add]
    grind
  · simp only [EbafCryptoStats.add, reasons] at hm hm' ⊢
    grind

end EbafCryptoStats

/-! ## Programs that dispose of their packet -/

variable {Ctx : Type}

namespace PacketState

/-- The state once the packet is counted as seen. -/
def seen (s : PacketState Ctx) : PacketState Ctx :=
  { s with stats := s.stats.map (EbafCryptoStats.inc .packetsSeen) }

/-- The state once the packet is accounted for. -/
def accounted (s : PacketState Ctx) (d : Disposition) : PacketState Ctx :=
  { s with stats := s.stats.map (EbafCryptoStats.account d) }

@[simp] theorem seen_frame (s : PacketState Ctx) : s.seen.frame = s.frame := rfl

/-- Counting a disposition after the packet was seen accounts for it. -/
theorem seen_stats_count (s : PacketState Ctx) (d : Disposition) :
    s.seen.stats.map d.count = (s.accounted d).stats := by
  obtain ⟨f, st, ev, cc⟩ := s
  cases st <;> rfl

theorem seen_count (s : PacketState Ctx) (d : Disposition) :
    { s.seen with stats := s.seen.stats.map d.count } = s.accounted d := by
  rw [seen_stats_count]
  rfl

/-- The packet was handed on as it came, with no cipher call and no event, and
accounted for as something else than transformed. -/
def Refused (s s' : PacketState Ctx) : Prop :=
  ∃ d, d ≠ .cryptoOk ∧ s' = s.accounted d

end PacketState

/-- The packet was transformed: a cipher call was made and succeeded. -/
def Transformed (s s' : PacketState Ctx) : Prop :=
  ∃ call, s'.cipherCalls = s.cipherCalls ++ [call] ∧ call.ok = true

theorem PacketState.Refused.frame {s s' : PacketState Ctx} (h : s.Refused s') :
    s'.frame = s.frame := by
  obtain ⟨d, -, rfl⟩ := h
  rfl

/-- `packets_crypto_ok` was incremented. -/
def CountedOk (s s' : PacketState Ctx) : Prop :=
  ∃ st st', s.stats = some st ∧ s'.stats = some st' ∧
    st' .packetsCryptoOk = st .packetsCryptoOk + 1

section Counted
variable {s s' : PacketState Ctx}

theorem succ_ne (n : UInt64) : n ≠ n + 1 := by
  intro h
  have hlt := n.toNat_lt
  have hnat : n.toNat = (n.toNat + 1) % 2 ^ 64 := congrArg UInt64.toNat h
  omega

/-- A packet that is accounted for as something else is not counted. -/
theorem not_countedOk {d : Disposition} (hd : d ≠ .cryptoOk)
    (hs : s'.stats = (s.accounted d).stats) : ¬ CountedOk s s' := by
  rintro ⟨st, st', hst, hst', hinc⟩
  have hst'' : st' = st.account d := by
    have := hst'.symm.trans hs
    rw [PacketState.accounted, hst] at this
    exact Option.some.inj this
  rw [hst'', EbafCryptoStats.account, Disposition.count_cryptoOk hd] at hinc
  exact succ_ne _ hinc

end Counted

/-- Every program starts by counting the packet as seen. -/
theorem ensures_start {α : Type} {g : Frame → PacketProg Ctx α} {s : PacketState Ctx}
    {Q : α → PacketState Ctx → Prop} {E : PacketState Ctx → Prop} :
    (statInc .packetsSeen >>= fun _ => packet >>= g).Ensures s Q E ↔
      (g s.frame).Ensures s.seen Q E :=
  Iff.rfl

theorem exec_start {α : Type} {g : Frame → PacketProg Ctx α} {s : PacketState Ctx} :
    (statInc .packetsSeen >>= fun _ => packet >>= g).exec s = (g s.frame).exec s.seen :=
  rfl

section Exits
variable {s : PacketState Ctx} {P : Prop}

/-- The exits of a program before it has done anything but count: `P` is what
the check that failed tells. -/
theorem refuse_passed (h : P) : (statInc .packetsPassed).Ensures s.seen
    (fun _ s' => P ∧ s.Refused s') (fun s' => P ∧ s.Refused s') :=
  ensures_statInc.mpr ⟨h, .passed, by simp, s.seen_count .passed⟩

theorem refuse_cryptoFail (h : P) : (statInc .packetsCryptoFail).Ensures s.seen
    (fun _ s' => P ∧ s.Refused s') (fun s' => P ∧ s.Refused s') :=
  ensures_statInc.mpr ⟨h, .cryptoFail, by simp, s.seen_count .cryptoFail⟩

theorem refuse_malformed {c : Counter} (hc : c.isReason = true) (h : P) :
    (statReason c).Ensures s.seen (fun _ s' => P ∧ s.Refused s') (fun s' => P ∧ s.Refused s') :=
  ensures_statReason.mpr ⟨h, .malformed c hc, by simp, s.seen_count (.malformed c hc)⟩

end Exits

end Ebaf
