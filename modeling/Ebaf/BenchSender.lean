import Ebaf.ChatFraming
import Ebaf.NumericOptions
import Ebaf.Printf

/-! # The sender of the benchmark

`udp_bench_sender` builds one packet and sends it as often as it can until its time is
over; then it prints how often.  The packet is the one the chat client would send for a
message of letters, with the IV that counts from zero.
-/
namespace Ebaf
open CStrings ByteWindow

/-! ## Arguments -/

/-- `parse_uint` of `udp_bench_sender.c`, which does not ask for the empty text. -/
def benchParseUint (text : CString) (min max : UInt32) : Option UInt32 :=
  let r := strtoul text
  if r.erange = true ∨ r.rest.length = text.length ∨ r.rest ≠ [] ∨ r.value < min.toNat ∨
    max.toNat < r.value then none
  else some (UInt32.ofNat r.value)

/-- `MAX_UDP_PAYLOAD` -/
def maxUdpPayload : UInt32 := 65507

/-- `EBAF_HEADER_BYTES` -/
def ebafHeaderBytes : UInt32 := 24

structure BenchArgs where
  host : CString
  port : UInt32
  durationSec : UInt32
  payloadBytes : UInt32

/-- The arguments, or what is printed about them. -/
def benchArgs (argv : List CString) : Except CString BenchArgs :=
  if argv.length < 4 ∨ 5 < argv.length then
    .error (printf (lit "usage: %s HOST PORT DURATION_SEC [PAYLOAD_BYTES]\n") [argv.headD []])
  else
    let payload := if argv.length = 5 then
      benchParseUint (argv.getD 4 []) 16 (maxUdpPayload - ebafHeaderBytes) else some 32
    match benchParseUint (argv.getD 2 []) 1 65535, benchParseUint (argv.getD 3 []) 1 3600, payload with
    | some port, some durationSec, some payloadBytes =>
      if payloadBytes % 16 ≠ 0 ∨ maxUdpPayload < payloadBytes + ebafHeaderBytes then
        .error (lit "payload bytes must be 16-byte aligned and fit UDP\n")
      else .ok ⟨argv.getD 1 [], port, durationSec, payloadBytes⟩
    | _, _, _ => .error (lit "invalid numeric argument\n")

/-! ## The packet -/

/-- `EBAF_MAGIC` -/
def benchMagic : Nat := 0x45424146

/-- `packet[8 + i] = i` -/
def countingIv : List UInt8 := (List.range 16).map UInt8.ofNat

/-- The letters `'A'`, the last one overwritten. -/
def benchBody (payloadBytes : Nat) : List UInt8 :=
  (List.replicate payloadBytes 65).set (payloadBytes - 1) 1

/-- `packet` -/
def benchPacket (payloadBytes : Nat) : List UInt8 :=
  [24, 16, 8, 0].map (fun shift => UInt8.ofNat (benchMagic >>> shift)) ++ [1, 1] ++
    be16Bytes (payloadBytes % 65536) ++ countingIv ++ benchBody payloadBytes

/-! ## The loop -/

/-- A turn of the loop: what `monotonic_ns` returns, and the error of `sendto` if it
fails. -/
structure BenchTurn where
  now : UInt64
  sendto : Option CString

/-- What `main` has returned, if it has, what it has sent and printed. -/
structure BenchRun where
  status : Option Nat
  sends : List (List UInt8)
  out : CString
  err : CString
  deriving DecidableEq

/-- `perror` -/
def perror (name error : CString) : CString := printf (lit "%s: %s\n") [name, error]

/-- The loop for the turns so far, from a value of `sent`. -/
def benchLoop (deadline : UInt64) (packet : List UInt8) (sent : UInt64) : List BenchTurn → BenchRun
  | [] => ⟨none, [], [], []⟩
  | turn :: turns =>
    if turn.now < deadline then
      match turn.sendto with
      | some error => ⟨some 1, [], [], perror (lit "sendto") error⟩
      | none =>
        let rest := benchLoop deadline packet (sent + 1) turns
        { rest with sends := packet :: rest.sends }
    else ⟨some 0, [], decimal sent.toNat ++ lit "\n", []⟩

/-- What `main` meets: the error of `socket` if it fails, `inet_pton`, and the clock at
the start. -/
structure BenchEnv where
  socket : Option CString
  inetPton : CString → Option (List UInt8)
  start : UInt64

/-- `main` of `udp_bench_sender.c`; the datagrams go to the address of the host. -/
def benchMain (env : BenchEnv) (argv : List CString) (turns : List BenchTurn) : BenchRun :=
  match benchArgs argv with
  | .error text => ⟨some 2, [], [], text⟩
  | .ok args =>
    match env.socket with
    | some error => ⟨some 1, [], [], perror (lit "socket") error⟩
    | none =>
      match env.inetPton args.host with
      | none => ⟨some 2, [], [], printf (lit "invalid host: %s\n") [args.host]⟩
      | some _ =>
        benchLoop (env.start + args.durationSec.toUInt64 * 1000000000)
          (benchPacket args.payloadBytes.toNat) 0 turns

/-! ## What it accepts and sends -/

/-- **Both programs read their numbers alike.** -/
theorem benchParseUint_eq (text : CString) (min max : UInt32) :
    benchParseUint text min max = parseUint text min max := by
  rw [parseUint]
  by_cases htext : text = []
  · subst htext
    rw [if_pos rfl, benchParseUint]
    exact if_pos (Or.inr (Or.inl rfl))
  · rw [if_neg htext]
    rfl

/-- The sizes it accepts are whole blocks that fit a datagram. -/
structure BenchSize (payloadBytes : Nat) : Prop where
  blocks : payloadBytes % 16 = 0
  pos : 0 < payloadBytes
  fits : payloadBytes ≤ 65472

theorem BenchSize.of_benchArgs {argv : List CString} {args : BenchArgs}
    (h : benchArgs argv = .ok args) : BenchSize args.payloadBytes.toNat := by
  rw [benchArgs] at h
  split at h
  · cases h
  dsimp only at h
  split at h
  · rename_i port durationSec payloadBytes hport hduration hpayload
    split at h
    · cases h
    · rename_i hgood
      obtain rfl := Except.ok.inj h
      have hrange : 16 ≤ payloadBytes ∧ payloadBytes ≤ maxUdpPayload - ebafHeaderBytes := by
        split at hpayload
        · rw [benchParseUint_eq] at hpayload
          exact parseUint_bounds hpayload
        · obtain rfl := Option.some.inj hpayload
          decide
      obtain ⟨hblocks, -⟩ := not_or.mp hgood
      have hmod : payloadBytes.toNat % 16 = 0 := congrArg UInt32.toNat (not_not.mp hblocks)
      have hlow : 16 ≤ payloadBytes.toNat := UInt32.le_iff_toNat_le.mp hrange.1
      have hhigh : payloadBytes.toNat ≤ 65483 := UInt32.le_iff_toNat_le.mp hrange.2
      exact ⟨hmod, by dsimp only; omega, by dsimp only; omega⟩
  · cases h

theorem benchBody_succ (n : Nat) : benchBody (n + 1) = List.replicate n 65 ++ [1] := by
  rw [benchBody, Nat.add_sub_cancel, List.replicate_succ', List.set_append_right]
  · rw [List.length_replicate, Nat.sub_self]
    rfl
  · rw [List.length_replicate]

theorem length_benchBody (n : Nat) : (benchBody n).length = n := by
  rw [benchBody, List.length_set, List.length_replicate]

/-- The last byte fills the last block. -/
theorem padBody_letters {n : Nat} (h : BenchSize n) :
    padBody (List.replicate (n - 1) 65) = benchBody n := by
  obtain ⟨m, rfl⟩ := Nat.exists_eq_add_of_lt h.pos
  have hblocks := h.blocks
  have hlen : ebafCryptoBlockBytes -
      (List.replicate m (65 : UInt8)).length % ebafCryptoBlockBytes = 1 := by
    rw [List.length_replicate, ebafCryptoBlockBytes]
    omega
  rw [Nat.zero_add, Nat.add_sub_cancel, benchBody_succ, padBody_eq_pad, BlockPadding.pad, hlen]
  rfl

/-- **The packet is the client's for a message of letters.** -/
theorem chatPacket_benchPacket {n : Nat} (h : BenchSize n) :
    chatPacket (List.replicate (n - 1) 65) countingIv = some (benchPacket n) := by
  have hfits := h.fits
  have hsmall : ¬ (0xFFFF < n ∨ udpMaxPayload < EbafCryptoHeader.size + n) := by
    rw [udpMaxPayload, EbafCryptoHeader.size]
    omega
  simp only [chatPacket, padBody_letters h, length_benchBody]
  rw [if_neg hsmall, benchPacket, Nat.mod_eq_of_lt (by omega : n < 65536)]
  rfl

/-- What a run of the loop leaves: the packet, once for every turn that sends it, and
the number once the clock has reached the deadline. -/
structure LoopSent (deadline : UInt64) (packet : List UInt8) (sent : UInt64)
    (turns : List BenchTurn) (run : BenchRun) : Prop where
  sends : ∃ k ≤ turns.length, run.sends = List.replicate k packet
  inTime : ∀ turn ∈ turns.take run.sends.length, turn.now < deadline ∧ turn.sendto = none
  printed : run.status = some 0 →
    run.out = decimal (sent + UInt64.ofNat run.sends.length).toNat ++ lit "\n"
  failed : run.status = some 1 → ∃ error, run.out = [] ∧ run.err = perror (lit "sendto") error

theorem benchLoop_spec (deadline : UInt64) (packet : List UInt8) (sent : UInt64)
    (turns : List BenchTurn) :
    LoopSent deadline packet sent turns (benchLoop deadline packet sent turns) := by
  induction turns generalizing sent with
  | nil => exact ⟨⟨0, Nat.le_refl 0, rfl⟩, List.forall_mem_nil _, nofun, nofun⟩
  | cons turn turns ih =>
    rw [benchLoop]
    split
    · rename_i hnow
      split
      · rename_i error _
        exact ⟨⟨0, Nat.zero_le _, rfl⟩, List.forall_mem_nil _, nofun, fun _ => ⟨error, rfl, rfl⟩⟩
      · rename_i hsendto
        have hrest := ih (sent + 1)
        obtain ⟨k, hk, hsends⟩ := hrest.sends
        refine ⟨⟨k + 1, Nat.succ_le_succ hk, ?_⟩, ?_, fun hstatus => ?_, hrest.failed⟩
        · rw [List.replicate_succ, ← hsends]
        · rw [List.length_cons, List.take_succ_cons]
          exact List.forall_mem_cons.mpr ⟨⟨hnow, hsendto⟩, hrest.inTime⟩
        · refine (hrest.printed hstatus).trans ?_
          rw [List.length_cons, UInt64.ofNat_add, UInt64.add_assoc, UInt64.add_comm 1]
          rfl
    · refine ⟨⟨0, Nat.zero_le _, rfl⟩, List.forall_mem_nil _, fun _ => ?_, nofun⟩
      rw [List.length_nil]
      show decimal sent.toNat ++ _ = decimal (sent + 0).toNat ++ _
      rw [UInt64.add_zero]

/-- **What `main` sends is the packet**, and once it has returned 0 it has printed how
often. -/
theorem benchMain_sends (env : BenchEnv) (turns : List BenchTurn) {argv : List CString}
    {args : BenchArgs} (hargs : benchArgs argv = .ok args) :
    (∃ k ≤ turns.length,
      (benchMain env argv turns).sends = List.replicate k (benchPacket args.payloadBytes.toNat)) ∧
    ((benchMain env argv turns).status = some 0 → (benchMain env argv turns).out =
      decimal (UInt64.ofNat (benchMain env argv turns).sends.length).toNat ++ lit "\n") := by
  rw [benchMain, hargs]
  dsimp only
  split
  · exact ⟨⟨0, Nat.zero_le _, rfl⟩, nofun⟩
  · split
    · exact ⟨⟨0, Nat.zero_le _, rfl⟩, nofun⟩
    · have hloop := benchLoop_spec (env.start + args.durationSec.toUInt64 * 1000000000)
        (benchPacket args.payloadBytes.toNat) 0 turns
      refine ⟨hloop.sends, fun hstatus => ?_⟩
      rw [hloop.printed hstatus, UInt64.zero_add]

end Ebaf
