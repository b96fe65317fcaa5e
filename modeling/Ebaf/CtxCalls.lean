import Mathlib.Logic.Function.Basic
import Ebaf.CryptoCtx

/-! # Calls of `create_crypto_ctx` that overlap

The program can be called again while another call of it runs.  A call is a
sequence of three phases with nothing shared between them but the map entries:
it reads the configuration and has a context created, it exchanges the context
for the one in the slot in one atomic step, and it releases what it has taken
out.  `createCryptoCtx_phases` says that the three, one after the other, are the
program.

A context is an object of its own: the call that had it created and the
parameters it was created with.  `CtxWorld` is the state of any number of calls,
and `CtxWorld.run` lets them take their phases in any order, with anything
written to `crypto_config` in between.  The entry is assumed not to change while
a call reads it.
-/
namespace Ebaf
open EarlyExit

/-! ## Overlapping calls -/

/-- A cipher context: the call that had it created, and with which parameters. -/
structure CtxObject (P : Type) where
  maker : P
  params : BpfCryptoParams
  deriving DecidableEq

/-- The kernel's answers to one call: whether the lookups find the entries, and
what `bpf_crypto_ctx_create` leaves in `*err` when it returns NULL. -/
structure CtxAnswers where
  configFound : Bool
  slotFound : Bool
  createErr : BpfCryptoParams → Option Int

/-- Where a call is.  Between two phases it may have a context that no map entry
refers to. -/
inductive CallPhase (P : Type) where
  | called
  | created (newCtx : CtxObject P)
  | exchanged (newCtx : CtxObject P) (oldCtx : Option (CtxObject P))
  | returned (n : Int)
  deriving DecidableEq

/-- A `struct ebaf_crypto_config`: its key is an array. -/
def StoredConfig : Type :=
  { config : EbafCryptoConfig // config.key.length = ebafCryptoMaxKeyBytes }

/-- What can happen next: user space writes `crypto_config`, or a call takes its
next phase. -/
inductive CtxAction (P : Type) where
  | configure (config : StoredConfig)
  | call (p : P)

/-- The map entries with what has been created and released, every call's phase,
and the contexts put into the slot so far, in this order. -/
structure CtxWorld (P : Type) where
  mem : CtxState (CtxObject P)
  phase : P → CallPhase P
  exchanges : List (CtxObject P)

section World
variable {P : Type}

/-- Each call has its own contexts created. -/
def CtxAnswers.env (a : CtxAnswers) (p : P) : CtxEnv (CtxObject P) where
  configFound := a.configFound
  slotFound := a.slotFound
  create params :=
    match a.createErr params with
    | some err => .error err
    | none => .ok ⟨p, params⟩

/-- The next phase of a call; a call that returns leaves it early. -/
def CallPhase.next (e : CtxEnv (CtxObject P)) :
    CallPhase P → Prog (CtxState (CtxObject P)) (CallPhase P)
  | .called => do
    let newCtx ← ctxCreate e
    pure (.created newCtx)
  | .created newCtx => do
    let oldCtx ← ctxExchange e newCtx
    pure (.exchanged newCtx oldCtx)
  | .exchanged _ oldCtx => do
    ctxRelease oldCtx
    Prog.stop
  | .returned n => pure (.returned n)

/-- The context a phase has put into the slot. -/
def CallPhase.putIn : CallPhase P → List (CtxObject P)
  | .exchanged newCtx _ => [newCtx]
  | .called | .created _ | .returned _ => []

namespace CtxWorld
variable [DecidableEq P]

/-- Before any call: the maps are empty. -/
def initial (config : StoredConfig) : CtxWorld P where
  mem := { config := config.1, slot := none, created := [], released := [], retval := 0 }
  phase _ := .called
  exchanges := []

/-- A call takes its next phase. -/
def stepCall (a : P → CtxAnswers) (w : CtxWorld P) (p : P) : CtxWorld P :=
  match (w.phase p).next ((a p).env p) w.mem with
  | .goOn phase mem =>
    { mem, phase := Function.update w.phase p phase, exchanges := w.exchanges ++ phase.putIn }
  | .exit mem => { w with mem, phase := Function.update w.phase p (.returned mem.retval) }

/-- One action. -/
def step (a : P → CtxAnswers) (w : CtxWorld P) : CtxAction P → CtxWorld P
  | .configure config => { w with mem := { w.mem with config := config.1 } }
  | .call p => w.stepCall a p

/-- Any number of actions. -/
def run (a : P → CtxAnswers) (w : CtxWorld P) (actions : List (CtxAction P)) : CtxWorld P :=
  actions.foldl (step a) w

variable {a : P → CtxAnswers} {w w' : CtxWorld P} {p : P}

/-- What every action preserves, every run preserves. -/
theorem run_induction {I : CtxWorld P → Prop} (hstep : ∀ w action, I w → I (step a w action))
    (hw : I w) (actions : List (CtxAction P)) : I (run a w actions) := by
  induction actions generalizing w with
  | nil => exact hw
  | cons action actions ih => exact ih (hstep w action hw)

theorem run_append (first rest : List (CtxAction P)) :
    run a w (first ++ rest) = run a (run a w first) rest :=
  List.foldl_append

/-! ## What a phase can do -/

/-- **Everything one phase of the call `p` can do.** -/
inductive CallMove (p : P) (w w' : CtxWorld P) : Prop where
  | failed (n : Int) (hn : n ≠ 0) (h : w.phase p = .called)
      (hs : w' = { w with
        mem := { w.mem with retval := n }
        phase := Function.update w.phase p (.returned n) })
  | created (h : w.phase p = .called) (hfits : w.mem.config.KeyFits)
      (hs : w' = { w with
        mem := { w.mem with created := w.mem.created ++ [⟨p, w.mem.config.params⟩] }
        phase := Function.update w.phase p (.created ⟨p, w.mem.config.params⟩) })
  | dropped (c : CtxObject P) (h : w.phase p = .created c)
      (hs : w' = { w with
        mem := { w.mem with released := w.mem.released ++ [c], retval := -4 }
        phase := Function.update w.phase p (.returned (-4)) })
  | exchanged (c : CtxObject P) (h : w.phase p = .created c)
      (hs : w' = {
        mem := { w.mem with slot := some c }
        phase := Function.update w.phase p (.exchanged c w.mem.slot)
        exchanges := w.exchanges ++ [c] })
  | finished (c : CtxObject P) (old : Option (CtxObject P)) (h : w.phase p = .exchanged c old)
      (hs : w' = { w with
        mem := { w.mem with released := w.mem.released ++ old.toList, retval := 0 }
        phase := Function.update w.phase p (.returned 0) })
  | ended (n : Int) (h : w.phase p = .returned n) (hs : w' = w)

/-- A phase ends as its program does. -/
theorem stepCall_cases {Q : CallPhase P → CtxState (CtxObject P) → Prop}
    {E : CtxState (CtxObject P) → Prop}
    (h : ((w.phase p).next ((a p).env p)).Ensures w.mem Q E) :
    (∃ phase mem, Q phase mem ∧ w.stepCall a p =
        ⟨mem, Function.update w.phase p phase, w.exchanges ++ phase.putIn⟩) ∨
      ∃ mem, E mem ∧ w.stepCall a p =
        ⟨mem, Function.update w.phase p (.returned mem.retval), w.exchanges⟩ := by
  unfold Prog.Ensures at h
  unfold stepCall
  cases hrun : (w.phase p).next ((a p).env p) w.mem with
  | goOn phase mem =>
    rw [hrun] at h
    exact Or.inl ⟨phase, mem, h, rfl⟩
  | exit mem =>
    rw [hrun] at h
    exact Or.inr ⟨mem, h, rfl⟩

omit [DecidableEq P] in
theorem env_create_eq_ok {a : CtxAnswers} {params : BpfCryptoParams} {c : CtxObject P}
    (h : (a.env p).create params = .ok c) : c = ⟨p, params⟩ := by
  cases herr : a.createErr params <;> simp only [CtxAnswers.env, herr] at h <;> cases h
  rfl

theorem stepCall_move (a : P → CtxAnswers) (w : CtxWorld P) (p : P) :
    CallMove p w (w.stepCall a p) := by
  cases hphase : w.phase p with
  | called =>
    have hspec : ((w.phase p).next ((a p).env p)).Ensures w.mem
        (fun phase mem => ∃ c, CreatesFor ((a p).env p) w.mem.config c ∧ phase = .created c ∧
          mem = { w.mem with created := w.mem.created ++ [c] })
        (fun mem => ∃ n, n ≠ 0 ∧ mem = { w.mem with retval := n }) := by
      rw [hphase]
      refine .bind ((ctxCreate_spec ((a p).env p) w.mem).mono (fun _ _ h => h) fun _ h => h.2) ?_
      rintro c mem ⟨hc, rfl⟩
      exact ⟨c, hc, rfl, rfl⟩
    rcases stepCall_cases hspec with ⟨_, _, ⟨c, hc, rfl, rfl⟩, hs⟩ | ⟨_, ⟨n, hn, rfl⟩, hs⟩
    · obtain rfl := env_create_eq_ok hc.created
      refine .created hphase hc.keyFits (hs.trans ?_)
      rw [CallPhase.putIn, List.append_nil]
    · exact .failed n hn hphase hs
  | created c =>
    have hspec : ((w.phase p).next ((a p).env p)).Ensures w.mem
        (fun phase mem => phase = .exchanged c w.mem.slot ∧ mem = { w.mem with slot := some c })
        (fun mem => mem = { w.mem with released := w.mem.released ++ [c], retval := -4 }) := by
      rw [hphase]
      refine .bind ((ctxExchange_spec ((a p).env p) c w.mem).mono (fun _ _ h => h)
        fun _ h => h.2) ?_
      rintro old mem ⟨-, rfl, rfl⟩
      exact ⟨rfl, rfl⟩
    rcases stepCall_cases hspec with ⟨_, _, ⟨rfl, rfl⟩, hs⟩ | ⟨_, rfl, hs⟩
    · exact .exchanged c hphase hs
    · exact .dropped c hphase hs
  | exchanged c old =>
    have hspec : ((w.phase p).next ((a p).env p)).Ensures w.mem (fun _ _ => False)
        (fun mem => mem =
          { w.mem with released := w.mem.released ++ old.toList, retval := 0 }) := by
      rw [hphase]
      refine .bind ((ctxRelease_spec old w.mem).mono (fun _ _ h => h) fun _ h => absurd h id) ?_
      rintro _ mem rfl
      exact Prog.ensures_stop.mpr rfl
    rcases stepCall_cases hspec with ⟨_, _, h, -⟩ | ⟨_, rfl, hs⟩
    · exact h.elim
    · exact .finished c old hphase hs
  | returned n =>
    have hspec : ((w.phase p).next ((a p).env p)).Ensures w.mem
        (fun phase mem => phase = .returned n ∧ mem = w.mem) (fun _ => False) := by
      rw [hphase]
      exact ⟨rfl, rfl⟩
    rcases stepCall_cases hspec with ⟨_, _, ⟨rfl, rfl⟩, hs⟩ | ⟨_, h, -⟩
    · have same : Function.update w.phase p (.returned n) = w.phase := by
        rw [← hphase, Function.update_eq_self]
      refine .ended n hphase (hs.trans ?_)
      rw [same, CallPhase.putIn, List.append_nil]
    · exact h.elim

/-- A call that has returned takes no more steps. -/
theorem stepCall_returned {n : Int} (h : w.phase p = .returned n) : w.stepCall a p = w := by
  cases stepCall_move a w p with
  | ended _ _ hs => exact hs
  | failed _ _ h' _ | created h' _ _ | dropped _ h' _ | exchanged _ h' _ | finished _ _ h' _ =>
    rw [h] at h'
    cases h'

theorem run_returned {n : Int} (h : w.phase p = .returned n) (k : Nat) :
    run a w (List.replicate k (.call p)) = w := by
  induction k with
  | zero => rfl
  | succ k ih =>
    show run a (w.stepCall a p) (List.replicate k (.call p)) = w
    rw [stepCall_returned h]
    exact ih

/-! ## A call that no other overlaps -/

/-- Where a phase returns, later ones do nothing. -/
theorem run_of_exit {mem : CtxState (CtxObject P)}
    (h : (w.phase p).next ((a p).env p) w.mem = .exit mem) (k : Nat) :
    (run a w (.call p :: List.replicate k (.call p))).mem = mem ∧
      (run a w (.call p :: List.replicate k (.call p))).phase =
        Function.update w.phase p (.returned mem.retval) := by
  have hstep : w.stepCall a p =
      { w with mem, phase := Function.update w.phase p (.returned mem.retval) } := by
    rw [stepCall, h]
  have hret : (w.stepCall a p).phase p = .returned mem.retval := by
    rw [hstep]
    exact Function.update_self ..
  show (run a (w.stepCall a p) _).mem = mem ∧ (run a (w.stepCall a p) _).phase = _
  rw [run_returned hret, hstep]
  exact ⟨rfl, rfl⟩

/-- Where it does not, the call goes on with its next phase. -/
theorem stepCall_of_goOn {mem : CtxState (CtxObject P)} {phase : CallPhase P}
    (h : (w.phase p).next ((a p).env p) w.mem = .goOn phase mem) :
    (w.stepCall a p).mem = mem ∧ (w.stepCall a p).phase p = phase ∧
      ∀ x, Function.update (w.stepCall a p).phase p x = Function.update w.phase p x := by
  rw [stepCall, h]
  exact ⟨rfl, Function.update_self .., fun x => Function.update_idem ..⟩

/-- **A call that no other overlaps is a run of the program.** -/
theorem run_call_alone (a : P → CtxAnswers) (h : w.phase p = .called) :
    (run a w [.call p, .call p, .call p]).mem = (createCryptoCtx ((a p).env p)).exec w.mem ∧
      (run a w [.call p, .call p, .call p]).phase = Function.update w.phase p
        (.returned ((createCryptoCtx ((a p).env p)).exec w.mem).retval) := by
  rw [createCryptoCtx_phases]
  cases hcreate : ctxCreate ((a p).env p) w.mem with
  | exit m =>
    rw [Prog.exec_bind_of_exit hcreate]
    refine run_of_exit ?_ 2
    rw [h]
    exact Prog.bind_of_exit hcreate
  | goOn c m =>
    obtain ⟨rfl, hcreated, hold⟩ : (w.stepCall a p).mem = m ∧
        (w.stepCall a p).phase p = .created c ∧ _ :=
      stepCall_of_goOn (by rw [h]; exact Prog.bind_of_goOn hcreate)
    rw [Prog.exec_bind_of_goOn hcreate, ← hold]
    show (run a (w.stepCall a p) [.call p, .call p]).mem = _ ∧
      (run a (w.stepCall a p) [.call p, .call p]).phase = _
    generalize w.stepCall a p = w₁ at hcreated
    cases hexchange : ctxExchange ((a p).env p) c w₁.mem with
    | exit m =>
      rw [Prog.exec_bind_of_exit hexchange]
      refine run_of_exit ?_ 1
      rw [hcreated]
      exact Prog.bind_of_exit hexchange
    | goOn old m =>
      obtain ⟨rfl, hexchanged, hold⟩ : (w₁.stepCall a p).mem = m ∧
          (w₁.stepCall a p).phase p = .exchanged c old ∧ _ :=
        stepCall_of_goOn (by rw [hcreated]; exact Prog.bind_of_goOn hexchange)
      rw [Prog.exec_bind_of_goOn hexchange, ← hold]
      show (run a (w₁.stepCall a p) [.call p]).mem = _ ∧
        (run a (w₁.stepCall a p) [.call p]).phase = _
      refine run_of_exit ?_ 0
      rw [hexchanged]
      exact Prog.return_eq

end CtxWorld
end World

end Ebaf
