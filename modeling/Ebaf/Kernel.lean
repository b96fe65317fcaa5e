import Ebaf.EarlyExit
import Ebaf.CryptoCommon
import Mathlib.GroupTheory.Perm.List

/-! # What a packet program sees of the kernel

A packet program runs on one frame.  It reads the maps `crypto_config` and
`crypto_ctx_map`, counts in `crypto_stats`, submits to the ring buffer
`crypto_events` and calls helpers and kfuncs.  Its state is `PacketState`: the
frame, the per-CPU statistics entry, the submitted events, and a record of
every cipher call, which the programs never read.

A frame is the range `data … data_end`, and `skb->len` is its length.  The
kernel's answers are the parameters of a run (`Env`): what the maps hold, which
calls fail, and what the clock says.  A call that fails leaves the frame alone;
one that succeeds acts on the window it names, and fails when that window does
not lie in the frame.

The cipher is a parameter, too (`CryptoKernel`): any length-preserving function
of context, IV and body.  A call works in place and may leave anything in the
IV window, which the kernel uses as the chaining buffer.
-/
namespace Ebaf
open ByteWindow EarlyExit

/-- A packet, from the Ethernet header to `data_end`. -/
abbrev Frame := List UInt8

/-- The two cipher kfuncs. -/
inductive Direction where
  | encrypt | decrypt
  deriving DecidableEq

/-- The cipher behind `bpf_crypto_encrypt` and `bpf_crypto_decrypt`: what a
successful call leaves in the body window and in the IV window. -/
structure CryptoKernel (Ctx : Type) where
  crypt : Direction → Ctx → List UInt8 → List UInt8 → List UInt8
  ivAfter : Direction → Ctx → List UInt8 → List UInt8 → List UInt8
  length_crypt : ∀ d c iv body, (crypt d c iv body).length = body.length
  length_ivAfter : ∀ d c iv body, (ivAfter d c iv body).length = iv.length

attribute [simp] CryptoKernel.length_crypt CryptoKernel.length_ivAfter

/-- Decryption inverts encryption for one context on bodies of the lengths `ok`. -/
def CryptoKernel.Inverts {Ctx : Type} (K : CryptoKernel Ctx) (c : Ctx) (ok : Nat → Prop) : Prop :=
  ∀ iv body, ok body.length →
    K.crypt .decrypt c iv (K.crypt .encrypt c iv body) = body

/-! A cipher of which some answers are known: each body of a chain is the
encryption of the one before it, and every other body is left as it is.  What a
call leaves in the IV window is the last block of the ciphertext. -/

section KnownAnswers
variable {Ctx : Type} {chain : List (List UInt8)} {n : Nat}

theorem length_formPerm (h : ∀ b ∈ chain, b.length = n) (body : List UInt8) :
    (chain.formPerm body).length = body.length := by
  by_cases hb : body ∈ chain
  · rw [h _ (List.formPerm_apply_mem_of_mem hb), h _ hb]
  · rw [List.formPerm_apply_of_notMem hb]

theorem length_formPerm_symm (h : ∀ b ∈ chain, b.length = n) (body : List UInt8) :
    (chain.formPerm.symm body).length = body.length := by
  have := length_formPerm h (chain.formPerm.symm body)
  rw [Equiv.apply_symm_apply] at this
  exact this.symm

/-- The last block of a ciphertext, when there is one. -/
def lastBlock (iv cipher : List UInt8) : List UInt8 :=
  if iv.length ≤ cipher.length then cipher.drop (cipher.length - iv.length) else iv

theorem length_lastBlock (iv cipher : List UInt8) : (lastBlock iv cipher).length = iv.length := by
  rw [lastBlock]
  split
  · rw [List.length_drop]
    omega
  · rfl

/-- The cipher with these answers, for bodies of one length. -/
def CryptoKernel.knownAnswers (Ctx : Type) (chain : List (List UInt8))
    (h : ∀ b ∈ chain, b.length = n) : CryptoKernel Ctx where
  crypt
    | .encrypt, _, _, body => chain.formPerm body
    | .decrypt, _, _, body => chain.formPerm.symm body
  ivAfter
    | .encrypt, _, iv, body => lastBlock iv (chain.formPerm body)
    | .decrypt, _, iv, body => lastBlock iv body
  length_crypt
    | .encrypt, _, _, body => length_formPerm h body
    | .decrypt, _, _, body => length_formPerm_symm h body
  length_ivAfter
    | .encrypt, _, _, _ => length_lastBlock _ _
    | .decrypt, _, _, _ => length_lastBlock _ _

theorem CryptoKernel.knownAnswers_inverts (h : ∀ b ∈ chain, b.length = n) (c : Ctx)
    (ok : Nat → Prop) : (knownAnswers Ctx chain h).Inverts c ok :=
  fun _ body _ => chain.formPerm.symm_apply_apply body

end KnownAnswers

/-- A cipher call: what was handed to the kfunc, and whether it returned 0. -/
structure CipherCall (Ctx : Type) where
  direction : Direction
  ctx : Ctx
  body : List UInt8
  iv : List UInt8
  ok : Bool

/-- The calls of one run that may fail. -/
inductive HelperCall where
  | changeTail | padStore (i : Nat) | trailerStore | trailerLoad
  | ipLenLoad | udpLenLoad | csumReplace | ipLenStore | udpLenStore | udpCheckStore
  | dynptrFrom | cloneBody | adjustBody | cloneIv | adjustIv
  | cipher | ivStore | ringbufReserve | sampleLoad (i : Nat) | padLoad
  deriving DecidableEq

/-- The kernel's answers in one run of a packet program. -/
structure Env (Ctx : Type) where
  /-- The entry of `crypto_config`. -/
  config : Option EbafCryptoConfig
  /-- The entry of `crypto_ctx_map`, and the context in it. -/
  slot : Option (Option Ctx)
  fails : HelperCall → Bool
  /-- `bpf_ktime_get_ns()` where the IV is filled and where the event is. -/
  ivClock : UInt64
  eventClock : UInt64
  /-- What the sample array of a reserved event holds. -/
  reserved : Sample

/-- The answers when nothing fails and the maps hold a configuration and a context. -/
def Env.smooth {Ctx : Type} (config : EbafCryptoConfig) (c : Ctx) : Env Ctx where
  config := some config
  slot := some (some c)
  fails _ := false
  ivClock := 1000000000
  eventClock := 1000000000
  reserved := ⟨List.replicate 32 0, rfl⟩

/-- The state a packet program works on. -/
structure PacketState (Ctx : Type) where
  frame : Frame
  stats : Option EbafCryptoStats
  events : List EbafCryptoEvent
  cipherCalls : List (CipherCall Ctx)

/-- A packet as it enters a program. -/
def entering {Ctx : Type} (f : Frame) (stats : Option EbafCryptoStats) : PacketState Ctx :=
  ⟨f, stats, [], []⟩

@[simp] theorem entering_frame {Ctx : Type} (f : Frame) (stats : Option EbafCryptoStats) :
    (entering f stats : PacketState Ctx).frame = f :=
  rfl

/-- A packet program.  Every return is `XDP_PASS` or `TC_ACT_OK`, so the verdict
is not part of the result. -/
abbrev PacketProg (Ctx : Type) := Prog (PacketState Ctx)

variable {Ctx : Type}

/-- The frame, as `data` and `data_end` delimit it. -/
def packet : PacketProg Ctx Frame := fun s => .goOn s.frame s

/-! ## Counting -/

/-- `if (stats) stat_inc(&stats->c);` -/
def statInc (c : Counter) : PacketProg Ctx Unit :=
  Prog.modify fun s => { s with stats := s.stats.map (EbafCryptoStats.inc c) }

/-- `stat_reason(stats, &stats->c);`, called `stat_bad` in `tc_transparent`. -/
def statReason (c : Counter) : PacketProg Ctx Unit := do
  statInc .packetsMalformed
  statInc c

/-! ## Dynptrs and the cipher -/

/-- A slice of the frame. -/
structure Dynptr where
  off : Nat
  size : Nat

/-- `bpf_dynptr_from_xdp`, `bpf_dynptr_from_skb` -/
def bpfDynptrFrom (e : Env Ctx) (f : Frame) : Option Dynptr :=
  if e.fails .dynptrFrom then none else some ⟨0, f.length⟩

/-- `bpf_dynptr_clone` -/
def bpfDynptrClone (e : Env Ctx) (call : HelperCall) (p : Dynptr) : Option Dynptr :=
  if e.fails call then none else some p

/-- `bpf_dynptr_adjust` -/
def bpfDynptrAdjust (e : Env Ctx) (call : HelperCall) (p : Dynptr) (start stop : Nat) :
    Option Dynptr :=
  if e.fails call ∨ stop < start ∨ p.size < stop then none
  else some ⟨p.off + start, stop - start⟩

section Dynptrs
variable {e : Env Ctx} {f : Frame} {call : HelperCall} {p q : Dynptr} {start stop : Nat}

theorem bpfDynptrFrom_eq_none : bpfDynptrFrom e f = none ↔ e.fails .dynptrFrom = true := by
  unfold bpfDynptrFrom
  split <;> simp_all

theorem bpfDynptrFrom_eq_some :
    bpfDynptrFrom e f = some p ↔ e.fails .dynptrFrom = false ∧ p = ⟨0, f.length⟩ := by
  unfold bpfDynptrFrom
  constructor
  · intro h
    split at h
    · cases h
    · exact ⟨Bool.eq_false_iff.mpr ‹_›, (Option.some.inj h).symm⟩
  · rintro ⟨hf, rfl⟩
    simp [hf]

theorem bpfDynptrClone_eq_none : bpfDynptrClone e call p = none ↔ e.fails call = true := by
  unfold bpfDynptrClone
  split <;> simp_all

theorem bpfDynptrClone_eq_some :
    bpfDynptrClone e call p = some q ↔ e.fails call = false ∧ q = p := by
  unfold bpfDynptrClone
  constructor
  · intro h
    split at h
    · cases h
    · exact ⟨Bool.eq_false_iff.mpr ‹_›, (Option.some.inj h).symm⟩
  · rintro ⟨hf, rfl⟩
    simp [hf]

/-- A slice inside the dynptr is refused only when the call fails. -/
theorem bpfDynptrAdjust_eq_none (hle : start ≤ stop) (hin : stop ≤ p.size) :
    bpfDynptrAdjust e call p start stop = none ↔ e.fails call = true := by
  unfold bpfDynptrAdjust
  split
  · rename_i h
    exact ⟨fun _ => by rcases h with h | h | h; exacts [h, by omega, by omega], fun _ => rfl⟩
  · rename_i h
    exact ⟨fun hn => by simp at hn, fun hf => absurd (Or.inl hf) h⟩

theorem bpfDynptrAdjust_eq_some (h : bpfDynptrAdjust e call p start stop = some q) :
    e.fails call = false ∧ q = ⟨p.off + start, stop - start⟩ := by
  unfold bpfDynptrAdjust at h
  split at h
  · cases h
  · rename_i hn
    exact ⟨by simpa using fun hf => hn (Or.inl hf), (Option.some.inj h).symm⟩

end Dynptrs

/-- The kfuncs a program calls before the cipher all succeed. -/
def DynptrsOk (e : Env Ctx) : Prop :=
  e.fails .dynptrFrom = false ∧ e.fails .cloneBody = false ∧ e.fails .adjustBody = false ∧
    e.fails .cloneIv = false ∧ e.fails .adjustIv = false

instance (e : Env Ctx) : Decidable (DynptrsOk e) := inferInstanceAs (Decidable (_ ∧ _))

/-- `bpf_crypto_encrypt(ctx, &body, &body, &iv)` or `bpf_crypto_decrypt`: whether
it returned 0. -/
def bpfCrypto (K : CryptoKernel Ctx) (e : Env Ctx) (d : Direction) (c : Ctx) (body iv : Dynptr) :
    PacketProg Ctx Bool := fun s =>
  let src := load s.frame body.off body.size
  let siv := load s.frame iv.off iv.size
  if e.fails .cipher then
    .goOn false { s with cipherCalls := s.cipherCalls ++ [⟨d, c, src, siv, false⟩] }
  else
    .goOn true { s with
      frame := store (store s.frame body.off (K.crypt d c siv src)) iv.off (K.ivAfter d c siv src)
      cipherCalls := s.cipherCalls ++ [⟨d, c, src, siv, true⟩] }

/-! ## The effect of the small steps -/

section Steps
variable {s : PacketState Ctx} {c : Counter}

/-- Counting changes the statistics entry only. -/
theorem ensures_statInc {Q : Unit → PacketState Ctx → Prop} {E : PacketState Ctx → Prop} :
    (statInc c).Ensures s Q E ↔ Q () { s with stats := s.stats.map (EbafCryptoStats.inc c) } :=
  Iff.rfl

theorem ensures_statReason {Q : Unit → PacketState Ctx → Prop} {E : PacketState Ctx → Prop} :
    (statReason c).Ensures s Q E ↔
      Q () { s with stats := s.stats.map (EbafCryptoStats.reason c) } := by
  obtain ⟨f, st, ev, cc⟩ := s
  cases st <;> exact Iff.rfl

section Cipher
variable {K : CryptoKernel Ctx} {e : Env Ctx} {d : Direction} {k : Ctx} {body iv : Dynptr}
  {Q : Bool → PacketState Ctx → Prop} {E : PacketState Ctx → Prop}

theorem ensures_bpfCrypto_of_fails (h : e.fails .cipher = true) :
    (bpfCrypto K e d k body iv).Ensures s Q E ↔ Q false { s with
      cipherCalls := s.cipherCalls ++
        [⟨d, k, load s.frame body.off body.size, load s.frame iv.off iv.size, false⟩] } := by
  simp only [Prog.Ensures, bpfCrypto, h, ite_true]

theorem ensures_bpfCrypto_of_succeeds (h : e.fails .cipher = false) :
    (bpfCrypto K e d k body iv).Ensures s Q E ↔ Q true { s with
      frame := store
        (store s.frame body.off
          (K.crypt d k (load s.frame iv.off iv.size) (load s.frame body.off body.size)))
        iv.off (K.ivAfter d k (load s.frame iv.off iv.size) (load s.frame body.off body.size))
      cipherCalls := s.cipherCalls ++
        [⟨d, k, load s.frame body.off body.size, load s.frame iv.off iv.size, true⟩] } := by
  simp only [Prog.Ensures, bpfCrypto, h, Bool.false_eq_true, ite_false]

end Cipher

theorem ensures_packet {Q : Frame → PacketState Ctx → Prop} {E : PacketState Ctx → Prop} :
    packet.Ensures s Q E ↔ Q s.frame s :=
  Iff.rfl

end Steps

end Ebaf
