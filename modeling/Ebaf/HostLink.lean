import Ebaf.AttachedPrograms
import Ebaf.Channel

/-! # Two hosts and the network between them

One host has started the loader to encrypt what it sends, the other one to decrypt
what it receives.  A datagram handed down on the first crosses its send path, travels
over a network that may lose, repeat and reorder, and crosses the receive path of the
second.  What the programs do for one datagram (`LinkMode`) makes this link a service
of `Channel`.
-/
namespace Ebaf
open ByteWindow

variable {Other Other' Ctx : Type}

/-- What is handed down: a datagram, and the kernel's answers on its way through the
programs. -/
structure Handover (Ctx : Type) where
  frame : Frame
  answers : PacketProgram → Env Ctx

/-- The two hosts as the ends of a channel, with the statistics entries of the CPUs
they run on. -/
def hostLink (K : CryptoKernel Ctx) (k : LoaderKernel Other Ctx) (k' : LoaderKernel Other' Ctx) :
    Channel.Ends (Option EbafCryptoStats) (Option EbafCryptoStats) (Handover Ctx) Frame
      (PacketProgram → Env Ctx) Frame where
  emit stats a :=
    let s := k.cross K a.answers k.interface.sendPath (entering a.frame stats)
    (s.stats, s.frame)
  take stats answers f :=
    let s := k'.cross K answers k'.interface.receivePath (entering f stats)
    (s.stats, s.frame)

/-- Two configurations for one link: the sender encrypts with `p` what it sends, the
receiver decrypts with `q` what it receives, for the same port and key. -/
structure Paired (cfg cfg' : EbafUserConfig) (p q : PacketProgram) : Prop where
  sends : cfg.sendPrograms = [p]
  receives : cfg'.receivePrograms = [q]
  encrypts : cfg.crypto.action = ebafActionEncrypt
  decrypts : cfg'.crypto.action = ebafActionDecrypt
  algo : cfg.crypto.algo = ebafAlgoCbcAes
  algo' : cfg'.crypto.algo = ebafAlgoCbcAes
  port : cfg'.crypto.udpPort = cfg.crypto.udpPort
  params : cfg'.crypto.params = cfg.crypto.params

/-! ## Counting -/

/-- The entry has counted these packets as seen, and of them these as transformed. -/
def Tally {α : Type} (counted : α → Bool) (st₀ : EbafCryptoStats) (stats : Option EbafCryptoStats)
    (l : List α) : Prop :=
  ∃ st, stats = some st ∧ st .packetsSeen = st₀ .packetsSeen + UInt64.ofNat l.length ∧
    st .packetsCryptoOk = st₀ .packetsCryptoOk + UInt64.ofNat (l.countP counted)

section Tallies
variable {α : Type} {counted : α → Bool} {st₀ : EbafCryptoStats} {stats : Option EbafCryptoStats}
  {l : List α} {a : α}

theorem tally_nil : Tally counted st₀ (some st₀) ([] : List α) :=
  ⟨st₀, rfl, (UInt64.add_zero _).symm, (UInt64.add_zero _).symm⟩

theorem account_seen (d : Disposition) (st : EbafCryptoStats) :
    st.account d .packetsSeen = st .packetsSeen + 1 := by
  cases d with
  | passed | cryptoOk | cryptoFail => rfl
  | malformed c hc =>
    have hne : Counter.packetsSeen ≠ c := by
      rintro rfl
      cases hc
    exact (EbafCryptoStats.inc_of_ne hne _).trans rfl

theorem account_ok (st : EbafCryptoStats) :
    st.account .cryptoOk .packetsCryptoOk = st .packetsCryptoOk + 1 := rfl

theorem account_not_ok {d : Disposition} (hd : d ≠ .cryptoOk) (st : EbafCryptoStats) :
    st.account d .packetsCryptoOk = st .packetsCryptoOk :=
  Disposition.count_cryptoOk hd _

/-- A packet is counted once more, as transformed exactly if it is to be. -/
theorem Tally.account (h : Tally counted st₀ stats l) {d : Disposition}
    (hd : counted a = true ↔ d = .cryptoOk) :
    Tally counted st₀ (stats.map (EbafCryptoStats.account d)) (l ++ [a]) := by
  obtain ⟨st, rfl, hseen, hok⟩ := h
  refine ⟨_, rfl, ?_, ?_⟩
  · rw [account_seen, hseen, List.length_append, List.length_singleton, UInt64.ofNat_add,
      UInt64.add_assoc]
    rfl
  · rw [List.countP_append, List.countP_singleton]
    by_cases hcounted : counted a = true
    · rw [hd.mp hcounted, account_ok, hok, if_pos hcounted, UInt64.ofNat_add, UInt64.add_assoc]
      rfl
    · rw [account_not_ok fun h => hcounted (hd.mpr h), hok, if_neg hcounted, Nat.add_zero]

end Tallies

/-! ## What the programs do for one datagram -/

/-- **A mode of the link**: what `p` makes of a datagram with the clock it reads
(`wire`), `q` makes undone (`Restores`), and other datagrams pass both. -/
structure LinkMode (K : CryptoKernel Ctx) (config config' : EbafCryptoConfig) (c : Ctx)
    (p q : PacketProgram) where
  Plain : Frame → Prop
  Foreign : Frame → Prop
  /-- What the kernel has to answer. -/
  Ready : Env Ctx → Prop
  wire : UInt64 → Frame → Frame
  Restores : Frame → Frame → Prop
  plainDecidable : DecidablePred Plain
  apart : ∀ f, Foreign f → ¬ Plain f
  seals : ∀ (e : Env Ctx) (f : Frame) (stats : Option EbafCryptoStats), Ready e → Plain f →
    ((p.run K (e.keyed config c)).exec (entering f stats)).frame = wire e.ivClock f ∧
      ((p.run K (e.keyed config c)).exec (entering f stats)).stats =
        stats.map (EbafCryptoStats.account .cryptoOk)
  opens : ∀ (e : Env Ctx) (clock : UInt64) (f : Frame) (stats : Option EbafCryptoStats), Ready e → Plain f →
    Restores f ((q.run K (e.keyed config' c)).exec (entering (wire clock f) stats)).frame ∧
      ((q.run K (e.keyed config' c)).exec (entering (wire clock f) stats)).stats =
        stats.map (EbafCryptoStats.account .cryptoOk)
  passes : ∀ (e : Env Ctx) (f : Frame) (stats : Option EbafCryptoStats), Foreign f →
    (entering f stats).Refused ((p.run K (e.keyed config c)).exec (entering f stats))
  passes' : ∀ (e : Env Ctx) (f : Frame) (stats : Option EbafCryptoStats), Foreign f →
    (entering f stats).Refused ((q.run K (e.keyed config' c)).exec (entering f stats))

attribute [instance] LinkMode.plainDecidable

namespace LinkMode
variable {K : CryptoKernel Ctx} {config config' : EbafCryptoConfig} {c : Ctx} {p q : PacketProgram}
  (m : LinkMode K config config' c p q)

/-- What is on the wire for a datagram. -/
def OnWire (a : Handover Ctx) (g : Frame) : Prop :=
  (m.Plain a.frame ∧ g = m.wire (a.answers p).ivClock a.frame) ∨ (m.Foreign a.frame ∧ g = a.frame)

/-- What the receiver's stack gets for a datagram. -/
def Received (a : Handover Ctx) (g : Frame) : Prop :=
  (m.Plain a.frame ∧ m.Restores a.frame g) ∨ (m.Foreign a.frame ∧ g = a.frame)

/-- The datagrams the link is for are handed down, and the kernel is ready. -/
def Asked (a : Handover Ctx) : Prop :=
  m.Ready (a.answers p) ∧ (m.Plain a.frame ∨ m.Foreign a.frame)

/-- The datagrams that are transformed. -/
def counted (a : Handover Ctx) : Bool := m.Plain a.frame

/-- The account a program gives of a datagram. -/
theorem tally_run {st₀ : EbafCryptoStats} {stats stats' : Option EbafCryptoStats}
    {l : List (Handover Ctx)} {a : Handover Ctx} (h : Tally m.counted st₀ stats l)
    (hplain : m.Plain a.frame → stats' = stats.map (EbafCryptoStats.account .cryptoOk))
    (hforeign : ¬ m.Plain a.frame →
      ∃ d, d ≠ .cryptoOk ∧ stats' = stats.map (EbafCryptoStats.account d)) :
    Tally m.counted st₀ stats' (l ++ [a]) := by
  by_cases hp : m.Plain a.frame
  · rw [hplain hp]
    exact h.account ⟨fun _ => rfl, fun _ => decide_eq_true hp⟩
  · obtain ⟨d, hd, hstats⟩ := hforeign hp
    rw [hstats]
    exact h.account ⟨fun hc => absurd (of_decide_eq_true hc) hp, fun hok => absurd hok hd⟩

/-- What the link is for, and what comes of it. -/
def terms (st₀ st₀' : EbafCryptoStats) :
    Channel.Terms (Option EbafCryptoStats) (Option EbafCryptoStats) (Handover Ctx) Frame
      (PacketProgram → Env Ctx) Frame where
  asks := m.Asked
  meets answers := m.Ready (answers q)
  Carries := m.OnWire
  Yields := m.Received
  Sent := Tally m.counted st₀
  Took := Tally m.counted st₀'

/-- **Hosts whose paths are these programs with these maps honour the terms.** -/
theorem honours {k : LoaderKernel Other Ctx} {k' : LoaderKernel Other' Ctx}
    (st₀ st₀' : EbafCryptoStats) (hsend : k.interface.sendPath = [p])
    (hreceive : k'.interface.receivePath = [q])
    (henv : ∀ answers, k.env p answers = answers.keyed config c)
    (henv' : ∀ answers, k'.env q answers = answers.keyed config' c) :
    Channel.Honours (hostLink K k k') (m.terms st₀ st₀') := by
  constructor
  case carries =>
    intro stats a ha
    simp only [hostLink, LoaderKernel.cross, hsend, List.foldl_cons, List.foldl_nil, henv]
    rcases ha.2 with hf | hf
    · exact Or.inl ⟨hf, (m.seals _ _ _ ha.1 hf).1⟩
    · exact Or.inr ⟨hf, (m.passes _ _ _ hf).frame⟩
  case yields =>
    intro stats answers a f hready hwire
    simp only [hostLink, LoaderKernel.cross, hreceive, List.foldl_cons, List.foldl_nil, henv']
    rcases hwire with ⟨hf, rfl⟩ | ⟨hf, rfl⟩
    · exact Or.inl ⟨hf, (m.opens _ _ _ _ hready hf).1⟩
    · exact Or.inr ⟨hf, (m.passes' _ _ _ hf).frame⟩
  case sent =>
    intro stats a l ha h
    simp only [hostLink, LoaderKernel.cross, hsend, List.foldl_cons, List.foldl_nil, henv]
    refine m.tally_run h (fun hf => (m.seals _ _ _ ha.1 hf).2) fun hf => ?_
    -- what passes is counted otherwise than as transformed
    obtain ⟨d, hd, hs⟩ := m.passes (a.answers p) _ stats (ha.2.resolve_left hf)
    exact ⟨d, hd, congrArg PacketState.stats hs⟩
  case took =>
    intro stats answers a f l hready hwire h
    simp only [hostLink, LoaderKernel.cross, hreceive, List.foldl_cons, List.foldl_nil, henv']
    rcases hwire with ⟨hf, rfl⟩ | ⟨hf, rfl⟩
    · exact m.tally_run h (fun _ => (m.opens _ _ _ _ hready hf).2) fun hn => absurd hf hn
    · refine m.tally_run h (fun hp => absurd hp (m.apart _ hf)) fun _ => ?_
      obtain ⟨d, hd, hs⟩ := m.passes' (answers q) _ stats hf
      exact ⟨d, hd, congrArg PacketState.stats hs⟩

end LinkMode

/-! ## Started hosts -/

section Started
variable {K : CryptoKernel Ctx} {cfg cfg' : EbafUserConfig} {p q : PacketProgram}
  {e e' : LoadEnv Ctx} {o : Others Other} {o' : Others Other'} {c : Ctx}

/-- The contexts created for one link are the same. -/
theorem Paired.same_ctx (hpair : Paired cfg cfg' p q) (hcreate : e'.ctxEnv.create = e.ctxEnv.create)
    {c' : Ctx} (hc : Creates e.ctxEnv cfg.crypto c) (hc' : Creates e'.ctxEnv cfg'.crypto c') :
    c' = c := by
  have h' := hc'.created
  rw [hcreate, hpair.params, hc.created] at h'
  exact (Except.ok.inj h').symm

/-- Two hosts that were started for one link read their configurations and one
context. -/
theorem Paired.keyed (hpair : Paired cfg cfg' p q)
    (hcreate : e'.ctxEnv.create = e.ctxEnv.create)
    (hstart : ((ebafBpfStart e cfg).exec (.initial o)).err = 0)
    (hstart' : ((ebafBpfStart e' cfg').exec (.initial o')).err = 0) :
    ∃ c, Creates e.ctxEnv cfg.crypto c ∧
      (∀ answers, ((ebafBpfStart e cfg).exec (.initial o)).kernel.env p answers =
        answers.keyed cfg.crypto c) ∧
      ∀ answers, ((ebafBpfStart e' cfg').exec (.initial o')).kernel.env q answers =
        answers.keyed cfg'.crypto c := by
  obtain ⟨c, hc, henv⟩ := (running_of_started hstart).env
  obtain ⟨c', hc', henv'⟩ := (running_of_started hstart').env
  rw [hpair.same_ctx hcreate hc hc'] at henv'
  have hp : p ∈ cfg.sendPrograms := by
    rw [hpair.sends]
    exact List.mem_singleton_self p
  have hq : q ∈ cfg'.receivePrograms := by
    rw [hpair.receives]
    exact List.mem_singleton_self q
  exact ⟨c, hc, henv p (Or.inr hp), henv' q (Or.inl hq)⟩

section Run
variable (hpair : Paired cfg cfg' p q) (hcreate : e'.ctxEnv.create = e.ctxEnv.create)
  (hstart : ((ebafBpfStart e cfg).exec (.initial o)).err = 0)
  (hstart' : ((ebafBpfStart e' cfg').exec (.initial o')).err = 0)
  (hc : Creates e.ctxEnv cfg.crypto c) (m : LinkMode K cfg.crypto cfg'.crypto c p q)
  (st₀ st₀' : EbafCryptoStats)
include hpair hcreate hstart hstart' hc

/-- Two hosts that were started for one link honour the terms. -/
theorem Paired.honours :
    Channel.Honours (hostLink K ((ebafBpfStart e cfg).exec (.initial o)).kernel
      ((ebafBpfStart e' cfg').exec (.initial o')).kernel) (m.terms st₀ st₀') := by
  obtain ⟨c', hc', henv, henv'⟩ := hpair.keyed hcreate hstart hstart'
  obtain rfl : c' = c := hc.unique hc'
  have hsend := (running_of_started hstart).sendPath.trans hpair.sends
  have hreceive := (running_of_started hstart').receivePath.trans hpair.receives
  exact m.honours st₀ st₀' hsend hreceive henv henv'

variable {acts : List (Channel.Act (Handover Ctx) (PacketProgram → Env Ctx))}
  {t : Channel.State (Option EbafCryptoStats) (Option EbafCryptoStats) Frame Frame}
  (hcovers : ∀ act ∈ acts, (m.terms st₀ st₀').Covers act)
  (hrun : Runs.run (Channel.step (hostLink K ((ebafBpfStart e cfg).exec (.initial o)).kernel
    ((ebafBpfStart e' cfg').exec (.initial o')).kernel)) (.init (some st₀) (some st₀')) acts = some t)
include hcovers hrun

/-- **Every run of their link has its account.** -/
theorem Paired.exists_account : ∃ w, Channel.Account (m.terms st₀ st₀') acts t w :=
  Channel.exists_account (hpair.honours hcreate hstart hstart' hc m st₀ st₀') tally_nil tally_nil
    hcovers hrun

/-- What is on the wire in the course of it. -/
theorem Paired.exists_wire :
    ∃ l, List.Forall₂ m.OnWire l (Channel.wire (hostLink K
        ((ebafBpfStart e cfg).exec (.initial o)).kernel
        ((ebafBpfStart e' cfg').exec (.initial o')).kernel) (.init (some st₀) (some st₀')) acts) ∧
      (acts.countP Channel.Act.isDoubling = 0 → l = Channel.requests acts) :=
  Channel.exists_wire (hpair.honours hcreate hstart hstart' hc m st₀ st₀') tally_nil tally_nil
    hcovers hrun

end Run

end Started

end Ebaf
