import Ebaf.BenchSender
import Ebaf.ChatLink

/-! # The benchmark over the framed link

The benchmark runs its sender on a host that encrypts with `tc_crypto` and counts on
one that decrypts.  What the sender prints, what the two programs count and what the
receiver counts are numbers of the same packets.
-/
namespace Ebaf
open CStrings ByteWindow

variable {Other Other' Ctx : Type}

/-! ## The receiver -/

/-- What the receiver of the benchmark asks of a datagram. -/
def benchCounts (payloadBytes : Nat) (data : List UInt8) : Bool :=
  if data.length < EbafCryptoHeader.size then false
  else
    let hdr := headerUnpackFrom data
    let body := data.drop EbafCryptoHeader.size
    hdr.magic = 0x45424146 ∧ hdr.version = 1 ∧ hdr.action = 1 ∧ hdr.payloadLen = body.length ∧
      body = List.replicate (payloadBytes - 1) 65 ++ [1]

/-- What the receiver counts of the datagrams it gets in time. -/
def benchReceived (payloadBytes : Nat) (datas : List (List UInt8)) : Nat :=
  datas.countP (benchCounts payloadBytes)

section Packet
variable {n : Nat}

theorem benchPacket_eq (h : BenchSize n) :
    benchPacket n = framedPayload countingIv (benchBody n) := by
  have hchat := (chatPacket_eq_some rfl (chatPacket_benchPacket h)).1
  rwa [padBody_letters h] at hchat

/-- The packet is one both programs take. -/
theorem benchPacket_format (h : BenchSize n) :
    EbafFormat (benchPacket n) ∧ actionByte (benchPacket n) = 1 :=
  (chatPacket_format rfl (chatPacket_benchPacket h)).1

/-- The receiver counts it. -/
theorem benchCounts_benchPacket (h : BenchSize n) : benchCounts n (benchPacket n) = true := by
  have hsmall := h.fits
  have hread : headerUnpackFrom (benchPacket n) = bodyHdr countingIv (benchBody n) := by
    rw [benchPacket_eq h]
    exact read_framedPayload rfl
  have hbody : (benchPacket n).drop EbafCryptoHeader.size = benchBody n := by
    rw [benchPacket_eq h, drop_framedPayload]
  have hlong : ¬ (benchPacket n).length < EbafCryptoHeader.size := by
    rw [benchPacket_eq h, length_framedPayload]
    exact Nat.not_lt.mpr (Nat.le_add_right _ _)
  have hletters : benchBody n = List.replicate (n - 1) 65 ++ [1] := by
    obtain ⟨m, rfl⟩ := Nat.exists_eq_add_of_lt h.pos
    rw [Nat.zero_add, benchBody_succ, Nat.add_sub_cancel]
  have hlength : (benchBody n).length % 65536 = (benchBody n).length := by
    rw [length_benchBody]
    exact Nat.mod_eq_of_lt (by omega)
  rw [benchCounts, if_neg hlong, hread, hbody]
  exact decide_eq_true ⟨rfl, rfl, rfl, hlength, hletters⟩

theorem benchReceived_eq (h : BenchSize n) {datas : List (List UInt8)}
    (hall : ∀ data ∈ datas, data = benchPacket n) : benchReceived n datas = datas.length := by
  rw [benchReceived, List.countP_eq_length]
  intro data hdata
  rw [hall data hdata]
  exact benchCounts_benchPacket h

end Packet

/-! ## The link -/

/-- What `tc_crypto` takes is a datagram for its port. -/
theorem TcAccepts.carriesUdp {f : Frame} {config : EbafCryptoConfig} (h : TcAccepts f config) :
    CarriesUdp config.udpPort f :=
  ⟨h.framed.proto, h.framed.ihl, h.whole, h.framed.udp, h.framed.port, h.framed.inside⟩

theorem countP_eq_length_toSocket {α : Type} {port : UInt16} {counted : α → Bool}
    {frame : α → Frame} {l : List α}
    (h : ∀ a ∈ l, counted a = true ↔ CarriesUdp port (frame a)) :
    l.countP counted = (toSocket port (l.map frame)).length := by
  rw [toSocket, List.length_map, ← List.countP_eq_length_filter, List.countP_map]
  refine List.countP_congr fun a ha => ?_
  rw [h a ha]
  exact decide_eq_true_iff.symm

/-- The packets of the sender that were handed down, and where they have gone: what the
two programs count, what arrives and what the receiver counts of it. -/
structure BenchCounts (payloadBytes : Nat) (port : UInt16) (st₀ st₀' : EbafCryptoStats)
    (sends : List (List UInt8)) (datas : List (List UInt8))
    (t : Channel.State (Option EbafCryptoStats) (Option EbafCryptoStats) Frame Frame) : Prop where
  encrypted : ∃ st, t.sender = some st ∧
    st .packetsCryptoOk = st₀ .packetsCryptoOk + UInt64.ofNat sends.length
  decrypted : ∃ st, t.receiver = some st ∧
    st .packetsCryptoOk = st₀' .packetsCryptoOk + UInt64.ofNat (toSocket port t.arrived).length
  arrived : ∀ data ∈ toSocket port t.arrived, data = benchPacket payloadBytes
  received : benchReceived payloadBytes datas = datas.length

/-- **What the benchmark measures.**  The sender runs with any arguments it accepts, on
a host that encrypts with `tc_crypto`; what is handed down for its port are its datagrams,
each in one frame, and no call on their way through the programs fails.  Over a
network that loses, repeats and reorders, the encrypting program counts as many packets
as the sender has sent, which is what the sender prints; the decrypting one counts as
many as arrive at the port, all of them the packet that was sent, and the receiver counts
all it gets.  If nothing is lost or repeated and everything arrives in time, all four
numbers are one. -/
theorem bench_link (K : CryptoKernel Ctx) (cfg cfg' : EbafUserConfig)
    (hpair : Paired cfg cfg' (.framed .tc) (.framed .tc)) (e e' : LoadEnv Ctx) (o : Others Other)
    (o' : Others Other') (hcreate : e'.ctxEnv.create = e.ctxEnv.create)
    (hstart : ((ebafBpfStart e cfg).exec (.initial o)).err = 0)
    (hstart' : ((ebafBpfStart e' cfg').exec (.initial o')).err = 0) (c : Ctx)
    (hc : Creates e.ctxEnv cfg.crypto c) (hinv : K.Inverts c fun n => n % 16 = 0)
    (st₀ st₀' : EbafCryptoStats)
    (acts : List (Channel.Act (Handover Ctx) (PacketProgram → Env Ctx)))
    (hready : ∀ a ∈ Channel.requests acts, FramedReady (a.answers (.framed .tc)))
    (hready' : ∀ answers ∈ Channel.arrivals acts, FramedReady (answers (.framed .tc)))
    (t : Channel.State (Option EbafCryptoStats) (Option EbafCryptoStats) Frame Frame)
    (hrun : Runs.run (Channel.step (hostLink K ((ebafBpfStart e cfg).exec (.initial o)).kernel
      ((ebafBpfStart e' cfg').exec (.initial o')).kernel)) (.init (some st₀) (some st₀')) acts =
        some t)
    (env : BenchEnv) (argv : List CString) (args : BenchArgs) (turns : List BenchTurn)
    (hargs : benchArgs argv = .ok args)
    (hsends : toSocket cfg.crypto.udpPort ((Channel.requests acts).map Handover.frame) =
      (benchMain env argv turns).sends)
    (datas : List (List UInt8))
    (hdatas : datas.Sublist (toSocket cfg.crypto.udpPort t.arrived)) :
    BenchCounts args.payloadBytes.toNat cfg.crypto.udpPort st₀ st₀' (benchMain env argv turns).sends
      datas t ∧
    ((benchMain env argv turns).status = some 0 → (benchMain env argv turns).out =
      decimal (UInt64.ofNat (benchMain env argv turns).sends.length).toNat ++ lit "\n") ∧
    (acts.countP Channel.Act.isLoss = 0 → acts.countP Channel.Act.isDoubling = 0 → t.flight = [] →
      (toSocket cfg.crypto.udpPort t.arrived).length = (benchMain env argv turns).sends.length) := by
  obtain ⟨w, hw⟩ := hpair.exists_account hcreate hstart hstart' hc (framedMode hpair hinv) st₀
    st₀' (framedMode_covers hpair hinv st₀ st₀' hready hready') hrun
  obtain ⟨⟨k, -, hpackets⟩, hprinted⟩ :=
    benchMain_sends env turns hargs
  have hsize := BenchSize.of_benchArgs hargs
  have hformat := benchPacket_format hsize
  -- what is handed down for the port is the packet
  have hpayload : ∀ a ∈ Channel.requests acts, CarriesUdp cfg.crypto.udpPort a.frame →
      udpPayload a.frame = benchPacket args.payloadBytes.toNat := by
    intro a ha hcarries
    have hmem : udpPayload a.frame ∈
        toSocket cfg.crypto.udpPort ((Channel.requests acts).map Handover.frame) :=
      mem_toSocket.mpr ⟨a, ha, hcarries, rfl⟩
    rw [hsends, hpackets] at hmem
    exact List.eq_of_mem_replicate hmem
  have hcounted : ∀ a ∈ Channel.requests acts, (framedMode hpair hinv).counted a = true ↔
      CarriesUdp cfg.crypto.udpPort a.frame := by
    intro a ha
    constructor
    · intro hplain
      have haccepts : TcAccepts a.frame cfg.crypto := of_decide_eq_true hplain
      exact haccepts.carriesUdp
    · intro hcarries
      refine decide_eq_true ((tcAccepts_iff hcarries hpair.algo (Or.inl hpair.encrypts)).mpr ?_)
      rw [hpayload a ha hcarries]
      exact hformat
  have hknown : ∀ a ∈ w.arrived, a ∈ Channel.requests acts :=
    fun a ha => hw.mem_requests (Or.inl ha)
  have harrived : toSocket cfg.crypto.udpPort t.arrived =
      toSocket cfg.crypto.udpPort (w.arrived.map Handover.frame) := toSocket_received hw.arrived
  have hsame : ∀ data ∈ toSocket cfg.crypto.udpPort t.arrived,
      data = benchPacket args.payloadBytes.toNat := by
    intro data hdata
    rw [harrived] at hdata
    obtain ⟨a, ha, hcarries, rfl⟩ := mem_toSocket.mp hdata
    exact hpayload a (hknown a ha) hcarries
  refine ⟨⟨?_, ?_, hsame, ?_⟩, hprinted, fun hloss hdoubling hflight => ?_⟩
  · obtain ⟨st, hst, -, hok⟩ : Tally _ st₀ t.sender (Channel.requests acts) := hw.sender
    refine ⟨st, hst, ?_⟩
    rw [hok, countP_eq_length_toSocket hcounted, hsends]
  · obtain ⟨st, hst, -, hok⟩ : Tally _ st₀' t.receiver w.arrived := hw.receiver
    refine ⟨st, hst, ?_⟩
    rw [hok, countP_eq_length_toSocket fun a ha => hcounted a (hknown a ha), harrived]
  · exact benchReceived_eq hsize fun data hdata => hsame data (hdatas.subset hdata)
  · have hperm := (hw.arrived_perm hloss hdoubling hflight).map Handover.frame
    rw [harrived, ← hsends, toSocket, toSocket]
    exact ((hperm.filter _).map udpPayload).length_eq

/-! ## Two packets -/

/-- The clock has reached the deadline at the third turn. -/
def twoTurnsInTime : List BenchTurn := [⟨0, none⟩, ⟨1, none⟩, ⟨1000000000, none⟩]

def benchArgv : List CString :=
  [lit "udp_bench_sender", lit "10.79.0.2", lit "7777", lit "1", lit "16"]

/-- `inet_pton`, for the one address. -/
def benchEnv : BenchEnv where
  socket := none
  inetPton host := if host = lit "10.79.0.2" then some [10, 79, 0, 2] else none
  start := 0

/-- Both are sent and arrive, the second one first. -/
def benchActs : List (Channel.Act (Handover BpfCryptoParams) (PacketProgram → Env BpfCryptoParams)) :=
  let answers := fun _ => Env.smooth (knownConfig ebafActionEncrypt)
    (knownConfig ebafActionEncrypt).params
  [.send ⟨datagram 7777 (benchPacket 16), answers⟩, .send ⟨datagram 7777 (benchPacket 16), answers⟩,
    .deliver 1 answers, .deliver 0 answers]

theorem benchMain_twoTurns : benchMain benchEnv benchArgv twoTurnsInTime =
    ⟨some 0, [benchPacket 16, benchPacket 16], lit "2\n", []⟩ := by
  decide +kernel

theorem bench_link_of_two :
    ∃ t, Runs.run (Channel.step (hostLink (knownKernel _)
        ((ebafBpfStart .smooth (knownUserConfig ebafActionEncrypt .tc)).exec
          (.initial (.nobody Unit))).kernel
        ((ebafBpfStart .smooth (knownUserConfig ebafActionDecrypt .tc)).exec
          (.initial (.nobody Unit))).kernel)) (.init (some .zero) (some .zero)) benchActs = some t ∧
      BenchCounts 16 7777 .zero .zero [benchPacket 16, benchPacket 16] (toSocket 7777 t.arrived) t ∧
      (toSocket 7777 t.arrived).length = 2 := by
  obtain ⟨t, hrun, hflight⟩ : ∃ t, Runs.run (Channel.step (hostLink (knownKernel _)
      ((ebafBpfStart .smooth (knownUserConfig ebafActionEncrypt .tc)).exec
        (.initial (.nobody Unit))).kernel
      ((ebafBpfStart .smooth (knownUserConfig ebafActionDecrypt .tc)).exec
        (.initial (.nobody Unit))).kernel)) (.init (some .zero) (some .zero)) benchActs = some t ∧
      t.flight = [] := ⟨_, rfl, rfl⟩
  have asked : ∀ a ∈ Channel.requests benchActs, FramedReady (a.answers (.framed .tc)) :=
    List.forall_mem_cons.mpr ⟨⟨by decide, rfl⟩, List.forall_mem_singleton.mpr ⟨by decide, rfl⟩⟩
  have met : ∀ answers ∈ Channel.arrivals benchActs, FramedReady (answers (.framed .tc)) :=
    List.forall_mem_cons.mpr ⟨⟨by decide, rfl⟩, List.forall_mem_singleton.mpr ⟨by decide, rfl⟩⟩
  have fits : Fits (benchPacket 16) := by decide
  have hsends : toSocket 7777 ((Channel.requests benchActs).map Handover.frame) =
      (benchMain benchEnv benchArgv twoTurnsInTime).sends := by
    have hcarries : CarriesUdp 7777 (datagram 7777 (benchPacket 16)) :=
      (datagram_isTransparent fits).carriesUdp
    show toSocket 7777 [datagram 7777 (benchPacket 16), datagram 7777 (benchPacket 16)] = _
    rw [toSocket_cons, if_pos hcarries, toSocket_cons, if_pos hcarries, udpPayload_datagram fits,
      benchMain_twoTurns]
    rfl
  have hargs : benchArgs benchArgv = .ok ⟨lit "10.79.0.2", 7777, 1, 16⟩ := rfl
  obtain ⟨hcounts, -, hall⟩ := bench_link (knownKernel _) (knownUserConfig ebafActionEncrypt .tc)
    (knownUserConfig ebafActionDecrypt .tc) knownUserConfig_paired .smooth .smooth (.nobody Unit)
    (.nobody Unit) rfl rfl rfl (knownConfig ebafActionEncrypt).params ⟨rfl, Or.inl ⟨rfl, rfl⟩, rfl, rfl⟩
    knownKernel_inverts .zero .zero benchActs asked met t hrun benchEnv benchArgv
    ⟨lit "10.79.0.2", 7777, 1, 16⟩ twoTurnsInTime hargs hsends (toSocket 7777 t.arrived)
    (List.Sublist.refl _)
  rw [benchMain_twoTurns] at hcounts hall
  exact ⟨t, hrun, hcounts, hall rfl rfl hflight⟩

end Ebaf
