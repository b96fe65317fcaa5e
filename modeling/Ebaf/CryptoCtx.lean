import Ebaf.EarlyExit
import Ebaf.CryptoCommon
import Ebaf.CStrings

/-! # The program `create_crypto_ctx`

The loader runs this program once, after it has written the configuration: it
creates a cipher context from the configured algorithm and key and exchanges it
for the one in the map `crypto_ctx_map`.  A context it takes out, or cannot put
in, is released.  The program works on the two map entries; what it creates and
releases is recorded (`CtxState`).
-/
namespace Ebaf
open EarlyExit CStrings

variable {Ctx : Type}

/-- `struct bpf_crypto_params`, its arrays without the zeros behind what is
copied into them. -/
structure BpfCryptoParams where
  type : CString
  algo : CString
  key : List UInt8
  keyLen : UInt32
  deriving DecidableEq

/-- The parameters for a configuration whose algorithm is known. -/
def EbafCryptoConfig.params (config : EbafCryptoConfig) : BpfCryptoParams where
  type := lit "skcipher"
  algo := if config.algo = ebafAlgoChacha20 then lit "chacha20" else lit "cbc(aes)"
  key := config.key.take
    (if config.algo = ebafAlgoChacha20 then ebafChacha20KeyBytes else ebafAes128KeyBytes)
  keyLen := config.keyLen

/-- The kernel's answers to a run of `create_crypto_ctx`: whether the lookups
find the entries, and what `bpf_crypto_ctx_create` returns, a context or NULL
with a value for `*err`. -/
structure CtxEnv (Ctx : Type) where
  configFound : Bool
  slotFound : Bool
  create : BpfCryptoParams → Except Int Ctx

/-- The state `create_crypto_ctx` works on: the entries of `crypto_config` and
`crypto_ctx_map`, the contexts created and released so far, and the value
returned. -/
structure CtxState (Ctx : Type) where
  config : EbafCryptoConfig
  slot : Option Ctx
  created : List Ctx
  released : List Ctx
  retval : Int

/-- `return n;` -/
def ctxReturn (n : Int) : Prog (CtxState Ctx) Unit :=
  Prog.modify fun s => { s with retval := n }

/-- `bpf_crypto_ctx_create` -/
def bpfCryptoCtxCreate (e : CtxEnv Ctx) (params : BpfCryptoParams) :
    Prog (CtxState Ctx) (Except Int Ctx) := do
  match e.create params with
  | .ok c =>
    Prog.modify fun s => { s with created := s.created ++ [c] }
    pure (.ok c)
  | .error err => pure (.error err)

/-- `bpf_crypto_ctx_release` -/
def bpfCryptoCtxRelease (c : Ctx) : Prog (CtxState Ctx) Unit :=
  Prog.modify fun s => { s with released := s.released ++ [c] }

/-- `bpf_kptr_xchg(&slot->ctx, new_ctx)` -/
def bpfKptrXchg (c : Ctx) : Prog (CtxState Ctx) (Option Ctx) := do
  let s ← Prog.get
  Prog.modify fun s => { s with slot := some c }
  pure s.slot

/-- `create_crypto_ctx` -/
def createCryptoCtx (e : CtxEnv Ctx) : Prog (CtxState Ctx) Unit := do
  let s ← Prog.get
  let config ← Prog.orExit (if e.configFound then some s.config else none) (ctxReturn (-1))
  Prog.exitIf (config.algo = ebafAlgoCbcAes ∧ config.keyLen ≠ UInt32.ofNat ebafAes128KeyBytes)
    (ctxReturn (-2))
  Prog.exitIf (config.algo = ebafAlgoChacha20 ∧ config.keyLen ≠ UInt32.ofNat ebafChacha20KeyBytes)
    (ctxReturn (-2))
  Prog.exitIf (config.algo ≠ ebafAlgoCbcAes ∧ config.algo ≠ ebafAlgoChacha20) (ctxReturn (-2))
  match ← bpfCryptoCtxCreate e config.params with
  | .error err => ctxReturn (if err ≠ 0 then err else -3)
  | .ok newCtx =>
    Prog.exitIf (e.slotFound = false) do
      bpfCryptoCtxRelease newCtx
      ctxReturn (-4)
    match ← bpfKptrXchg newCtx with
    | some oldCtx => bpfCryptoCtxRelease oldCtx
    | none => pure ()
    ctxReturn 0

/-- An algorithm with the key length it takes. -/
def EbafCryptoConfig.KeyFits (config : EbafCryptoConfig) : Prop :=
  (config.algo = ebafAlgoCbcAes ∧ config.keyLen = UInt32.ofNat ebafAes128KeyBytes) ∨
    (config.algo = ebafAlgoChacha20 ∧ config.keyLen = UInt32.ofNat ebafChacha20KeyBytes)

/-- A run of `create_crypto_ctx` creates the context `c` and puts it in. -/
structure Creates (e : CtxEnv Ctx) (config : EbafCryptoConfig) (c : Ctx) : Prop where
  configFound : e.configFound = true
  keyFits : config.KeyFits
  created : e.create config.params = .ok c
  slotFound : e.slotFound = true

theorem Creates.unique {e : CtxEnv Ctx} {config : EbafCryptoConfig} {c c' : Ctx}
    (h : Creates e config c) (h' : Creates e config c') : c' = c := by
  have := h'.created.symm.trans h.created
  cases this
  rfl

/-- What a run of `create_crypto_ctx` can do: put a new context in and return 0,
or return something else and leave the entry alone. -/
inductive CtxEnd (e : CtxEnv Ctx) (s s' : CtxState Ctx) : Prop where
  | exchanged (c : Ctx) (h : Creates e s.config c)
      (hs : s' = { s with
        slot := some c
        created := s.created ++ [c]
        released := s.released ++ s.slot.toList
        retval := 0 })
  | notCreated (h : ∀ c, ¬ Creates e s.config c) (n : Int) (hn : n ≠ 0)
      (hs : s' = { s with retval := n })
  | notStored (c : Ctx) (h : ∀ c, ¬ Creates e s.config c)
      (hs : s' = { s with
        created := s.created ++ [c]
        released := s.released ++ [c]
        retval := -4 })

/-! ## The phases of a run

The program reads the configuration and has a context created, exchanges it for
the one in the slot, and releases what it has taken out. -/

/-- Up to `bpf_crypto_ctx_create`: the call has a context, or has returned. -/
def ctxCreate (e : CtxEnv Ctx) : Prog (CtxState Ctx) Ctx := do
  let s ← Prog.get
  let config ← Prog.orExit (if e.configFound then some s.config else none) (ctxReturn (-1))
  Prog.exitIf (config.algo = ebafAlgoCbcAes ∧ config.keyLen ≠ UInt32.ofNat ebafAes128KeyBytes)
    (ctxReturn (-2))
  Prog.exitIf (config.algo = ebafAlgoChacha20 ∧ config.keyLen ≠ UInt32.ofNat ebafChacha20KeyBytes)
    (ctxReturn (-2))
  Prog.exitIf (config.algo ≠ ebafAlgoCbcAes ∧ config.algo ≠ ebafAlgoChacha20) (ctxReturn (-2))
  match ← bpfCryptoCtxCreate e config.params with
  | .error err => do
    ctxReturn (if err ≠ 0 then err else -3)
    Prog.stop
  | .ok newCtx => pure newCtx

/-- The lookup of the slot and the exchange: the call has what was in the slot, or
has returned. -/
def ctxExchange (e : CtxEnv Ctx) (newCtx : Ctx) : Prog (CtxState Ctx) (Option Ctx) := do
  Prog.exitIf (e.slotFound = false) do
    bpfCryptoCtxRelease newCtx
    ctxReturn (-4)
  bpfKptrXchg newCtx

/-- The release of the context that was taken out. -/
def ctxRelease (oldCtx : Option Ctx) : Prog (CtxState Ctx) Unit := do
  match oldCtx with
  | some oldCtx => bpfCryptoCtxRelease oldCtx
  | none => pure ()
  ctxReturn 0

/-- **The phases make up the program.** -/
theorem createCryptoCtx_phases (e : CtxEnv Ctx) (s : CtxState Ctx) :
    (createCryptoCtx e).exec s =
      (ctxCreate e >>= fun newCtx => ctxExchange e newCtx >>= ctxRelease).exec s := by
  rw [createCryptoCtx, ctxCreate]
  simp only [bind_assoc]
  refine Prog.exec_pointer_congr fun config _ => ?_
  refine Prog.exec_check_congr Iff.rfl fun _ => ?_
  refine Prog.exec_check_congr Iff.rfl fun _ => ?_
  refine Prog.exec_check_congr Iff.rfl fun _ => ?_
  cases hcreate : e.create config.params with
  | error err =>
    simp only [bpfCryptoCtxCreate, hcreate, pure_bind, bind_assoc]
    rfl
  | ok c =>
    simp only [bpfCryptoCtxCreate, hcreate, pure_bind, bind_assoc, ctxExchange]
    rfl

/-- The context `c` is created, for an algorithm with the key length it takes. -/
structure CreatesFor (e : CtxEnv Ctx) (config : EbafCryptoConfig) (c : Ctx) : Prop where
  configFound : e.configFound = true
  keyFits : config.KeyFits
  created : e.create config.params = .ok c

theorem ctxCreate_spec (e : CtxEnv Ctx) (s : CtxState Ctx) :
    (ctxCreate e).Ensures s
      (fun c s' => CreatesFor e s.config c ∧ s' = { s with created := s.created ++ [c] })
      (fun s' => (∀ c, ¬ CreatesFor e s.config c) ∧ ∃ n, n ≠ 0 ∧ s' = { s with retval := n }) := by
  have fail : ∀ {n : Int}, n ≠ 0 → (∀ c, ¬ CreatesFor e s.config c) →
      (ctxReturn n).Ensures s
        (fun _ s' => (∀ c, ¬ CreatesFor e s.config c) ∧ ∃ n, n ≠ 0 ∧ s' = { s with retval := n })
        (fun s' => (∀ c, ¬ CreatesFor e s.config c) ∧ ∃ n, n ≠ 0 ∧ s' = { s with retval := n }) :=
    fun hn h => Prog.ensures_modify.mpr ⟨h, _, hn, rfl⟩
  refine Prog.ensures_bind.mpr (Prog.ensures_get.mpr ?_)
  refine .pointer (fun h => fail (by decide) fun c hc => ?_) fun config hconfig => ?_
  · rw [hc.configFound] at h
    cases h
  have found : e.configFound = true := by
    by_contra hn
    rw [if_neg hn] at hconfig
    cases hconfig
  rw [if_pos found] at hconfig
  obtain rfl := Option.some.inj hconfig
  refine .check (fun h => fail (by decide) fun c hc => ?_) fun aes => ?_
  · exact hc.keyFits.elim (fun k => h.2 k.2) fun k => by rw [h.1] at k; exact absurd k.1 (by decide)
  refine .check (fun h => fail (by decide) fun c hc => ?_) fun chacha => ?_
  · exact hc.keyFits.elim (fun k => by rw [h.1] at k; exact absurd k.1 (by decide)) fun k => h.2 k.2
  refine .check (fun h => fail (by decide) fun c hc => ?_) fun known => ?_
  · exact hc.keyFits.elim (fun k => h.1 k.1) fun k => h.2 k.1
  have keyFits : s.config.KeyFits := by
    by_cases ha : s.config.algo = ebafAlgoCbcAes
    · exact Or.inl ⟨ha, not_not.mp fun h => aes ⟨ha, h⟩⟩
    · have hc : s.config.algo = ebafAlgoChacha20 := not_not.mp fun h => known ⟨ha, h⟩
      exact Or.inr ⟨hc, not_not.mp fun h => chacha ⟨hc, h⟩⟩
  refine Prog.ensures_bind.mpr ?_
  cases hcreate : e.create s.config.params with
  | error err =>
    simp only [bpfCryptoCtxCreate, hcreate, Prog.ensures_pure]
    refine Prog.ensures_bind.mpr (fail (by split <;> [assumption; decide]) fun c hc => ?_)
    cases hcreate.symm.trans hc.created
  | ok c =>
    simp only [bpfCryptoCtxCreate, hcreate, Prog.ensures_bind, Prog.ensures_modify,
      Prog.ensures_pure]
    exact ⟨⟨found, keyFits, hcreate⟩, trivial⟩

theorem ctxExchange_spec (e : CtxEnv Ctx) (c : Ctx) (s : CtxState Ctx) :
    (ctxExchange e c).Ensures s
      (fun old s' => e.slotFound = true ∧ old = s.slot ∧ s' = { s with slot := some c })
      (fun s' => e.slotFound = false ∧
        s' = { s with released := s.released ++ [c], retval := -4 }) := by
  refine .check (fun h => ?_) fun h => ?_
  · exact Prog.ensures_bind.mpr ⟨h, rfl⟩
  · exact ⟨by simpa using h, rfl, rfl⟩

theorem ctxRelease_spec (old : Option Ctx) (s : CtxState Ctx) :
    (ctxRelease old).Ensures s
      (fun _ s' => s' = { s with released := s.released ++ old.toList, retval := 0 })
      (fun _ => False) := by
  cases old with
  | none =>
    show _ = _
    simp [Option.toList]
  | some old => exact Eq.refl _

/-- **The specification of `create_crypto_ctx`.** -/
theorem createCryptoCtx_spec (e : CtxEnv Ctx) (s : CtxState Ctx) :
    CtxEnd e s ((createCryptoCtx e).exec s) := by
  rw [createCryptoCtx_phases]
  refine Prog.Ensures.exec (E := CtxEnd e s) ?_
  refine .bind ((ctxCreate_spec e s).mono (fun _ _ h => h) ?_) ?_
  · rintro s' ⟨hn, n, hne, rfl⟩
    exact .notCreated (fun c h => hn c ⟨h.configFound, h.keyFits, h.created⟩) n hne rfl
  rintro c s' ⟨hc, rfl⟩
  refine .bind ((ctxExchange_spec e c _).mono (fun _ _ h => h) ?_) ?_
  · rintro s' ⟨hslot, rfl⟩
    refine .notStored c (fun c' h => ?_) rfl
    rw [h.slotFound] at hslot
    cases hslot
  rintro old s' ⟨hslot, rfl, rfl⟩
  refine (ctxRelease_spec s.slot _).mono ?_ fun _ h => absurd h id
  rintro _ s' rfl
  exact .exchanged c ⟨hc.configFound, hc.keyFits, hc.created, hslot⟩ rfl

end Ebaf
