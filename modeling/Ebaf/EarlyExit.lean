import Mathlib.Control.Basic

/-! # Stateful code with early exits

A C function that checks, counts and returns, line by line, is a computation on
a state that either falls through to the next line with a value or has already
returned.  `Prog σ α` is that computation as a pure function, with the monad
structure `do` needs: once an exit is taken, the rest of the block is skipped
and the state stays as the exit left it.

What a run does is stated by `Ensures p s Q E`: from `s`, if `p` falls through
with value `a` in state `s'` then `Q a s'`, and if it returns in state `s'` then
`E s'`.  The rules below follow the shape of the code, one for each way of
composing it, so that a proof about a function reads like the function: each
check is one `refine`, with the exit's obligation first and the rest of the
function after it.
-/
namespace EarlyExit

/-- How a run ends: it goes on with a value, or it has returned. -/
inductive Outcome (σ α : Type) where
  | goOn (a : α) (s : σ)
  | exit (s : σ)

namespace Outcome
variable {σ α : Type}

/-- The state a run ends in, however it ended. -/
def state : Outcome σ α → σ
  | goOn _ s => s
  | exit s => s

/-- The run has fallen through. -/
def fellThrough : Outcome σ α → Bool
  | goOn _ _ => true
  | exit _ => false

theorem eq_goOn_state {o : Outcome σ Unit} (h : o.fellThrough = true) : o = .goOn () o.state := by
  cases o with
  | goOn _ _ => rfl
  | exit _ => cases h

end Outcome

/-- A computation on a state, with early exits. -/
def Prog (σ α : Type) : Type := σ → Outcome σ α

namespace Prog
variable {σ τ α β : Type}

instance : Monad (Prog σ) where
  pure a := fun s => .goOn a s
  bind p f := fun s =>
    match p s with
    | .goOn a s' => f a s'
    | .exit s' => .exit s'

instance : LawfulMonad (Prog σ) :=
  LawfulMonad.mk' (Prog σ)
    (fun p => funext fun s => by
      show (match p s with | .goOn a s' => Outcome.goOn a s' | .exit s' => .exit s') = p s
      cases p s <;> rfl)
    (fun _ _ => rfl)
    (fun p f g => funext fun s => by
      show (match (match p s with | .goOn a s' => f a s' | .exit s' => .exit s') with
        | .goOn b s' => g b s' | .exit s' => .exit s') =
          match p s with
          | .goOn a s' => (match f a s' with | .goOn b s'' => g b s'' | .exit s'' => .exit s'')
          | .exit s' => .exit s'
      cases p s <;> rfl)

/-- Read the state. -/
def get : Prog σ σ := fun s => .goOn s s

/-- Change the state. -/
def modify (g : σ → σ) : Prog σ Unit := fun s => .goOn () (g s)

/-- `return;` -/
def stop : Prog σ α := fun s => .exit s

/-- `if (c) { k; return; }` -/
def exitIf (c : Prop) [Decidable c] (k : Prog σ Unit) : Prog σ Unit :=
  if c then k >>= fun _ => stop else pure ()

/-- `if (c) p;` -/
def onlyIf (c : Prop) [Decidable c] (p : Prog σ Unit) : Prog σ Unit :=
  if c then p else pure ()

/-- `if (!p) { k; return; }` for a pointer `p`, which is then dereferenced. -/
def orExit (x : Option α) (k : Prog σ Unit) : Prog σ α :=
  match x with
  | some a => pure a
  | none => k >>= fun _ => stop

/-- A call that changes the state or fails: `if (call() < 0) { k; return; }` -/
def tryModify (h : σ → Option σ) (k : Prog σ Unit) : Prog σ Unit := fun s =>
  match h s with
  | some s' => .goOn () s'
  | none => (k >>= fun _ => stop) s

/-- Run a computation to its end: the state it leaves, whichever way it ends. -/
def exec (p : Prog σ α) (s : σ) : σ := (p s).state

/-- A subroutine working on one component of the state: whether it got to its
end (the caller sees a return code, not an exit). -/
def attempt (part : σ → τ) (put : σ → τ → σ) (p : Prog τ Unit) : Prog σ Bool := fun s =>
  match p (part s) with
  | .goOn _ t => .goOn true (put s t)
  | .exit t => .goOn false (put s t)

/-- A bounded loop `for (i = start; i < start + n; i++)` whose body may return
from the function. -/
def forUpTo (body : Nat → Prog σ Unit) : Nat → Nat → Prog σ Unit
  | _, 0 => pure ()
  | start, n + 1 => body start >>= fun _ => forUpTo body (start + 1) n

/-! ## What a run ensures -/

/-- From `s`, falling through establishes `Q` and returning establishes `E`. -/
def Ensures (p : Prog σ α) (s : σ) (Q : α → σ → Prop) (E : σ → Prop) : Prop :=
  match p s with
  | .goOn a s' => Q a s'
  | .exit s' => E s'

variable {p : Prog σ α} {f : α → Prog σ β} {s : σ} {Q : α → σ → Prop} {E : σ → Prop}

@[simp] theorem ensures_pure {a : α} : (pure a : Prog σ α).Ensures s Q E ↔ Q a s := Iff.rfl

@[simp] theorem ensures_get {Q : σ → σ → Prop} : (get : Prog σ σ).Ensures s Q E ↔ Q s s := Iff.rfl

@[simp] theorem ensures_modify {g : σ → σ} {Q : Unit → σ → Prop} :
    (modify g).Ensures s Q E ↔ Q () (g s) := Iff.rfl

@[simp] theorem ensures_stop : (stop : Prog σ α).Ensures s Q E ↔ E s := Iff.rfl

theorem ensures_bind {Q : β → σ → Prop} :
    (p >>= f).Ensures s Q E ↔ p.Ensures s (fun a s' => (f a).Ensures s' Q E) E := by
  show (match (match p s with | .goOn a s' => f a s' | .exit s' => .exit s') with
      | .goOn a s' => Q a s' | .exit s' => E s') ↔ _
  unfold Ensures
  cases p s <;> rfl

theorem Ensures.mono {Q' : α → σ → Prop} {E' : σ → Prop} (h : p.Ensures s Q E)
    (hQ : ∀ a s', Q a s' → Q' a s') (hE : ∀ s', E s' → E' s') : p.Ensures s Q' E' := by
  unfold Ensures at h ⊢
  cases hp : p s with
  | goOn a s' => rw [hp] at h; exact hQ a s' h
  | exit s' => rw [hp] at h; exact hE s' h

/-- Two things a run ensures, it ensures together. -/
theorem Ensures.and {Q' : α → σ → Prop} {E' : σ → Prop} (h : p.Ensures s Q E)
    (h' : p.Ensures s Q' E') :
    p.Ensures s (fun a s' => Q a s' ∧ Q' a s') (fun s' => E s' ∧ E' s') := by
  unfold Ensures at h h' ⊢
  cases hp : p s <;> rw [hp] at h h' <;> exact ⟨h, h'⟩

/-- A function's line: what it ensures, then the lines after it. -/
theorem Ensures.bind {Q : β → σ → Prop} {R : α → σ → Prop} (h : p.Ensures s R E)
    (hf : ∀ a s', R a s' → (f a).Ensures s' Q E) : (p >>= f).Ensures s Q E :=
  ensures_bind.mpr (h.mono hf fun _ he => he)

/-- A line that is run under a condition. -/
theorem Ensures.onlyIf {c : Prop} [Decidable c] {p : Prog σ Unit} {Q : Unit → σ → Prop}
    (hpos : c → p.Ensures s Q E) (hneg : ¬ c → Q () s) : (onlyIf c p).Ensures s Q E := by
  by_cases hc : c
  · rw [Prog.onlyIf, if_pos hc]
    exact hpos hc
  · rw [Prog.onlyIf, if_neg hc]
    exact hneg hc

/-- A check: its exit, and the lines after it where the check has passed. -/
theorem Ensures.check {c : Prop} [Decidable c] {k : Prog σ Unit} {g : Unit → Prog σ β}
    {Q : β → σ → Prop} (hexit : c → k.Ensures s (fun _ => E) E)
    (hgo : ¬ c → (g ()).Ensures s Q E) : (exitIf c k >>= g).Ensures s Q E := by
  by_cases hc : c
  · rw [exitIf, if_pos hc]
    exact ensures_bind.mpr (ensures_bind.mpr ((hexit hc).mono (fun _ _ h => h) fun _ h => h))
  · rw [exitIf, if_neg hc]
    exact hgo hc

/-- A check on a function's last line. -/
theorem Ensures.lastCheck {c : Prop} [Decidable c] {k : Prog σ Unit} {Q : Unit → σ → Prop}
    (hexit : c → k.Ensures s (fun _ => E) E) (hgo : ¬ c → Q () s) : (exitIf c k).Ensures s Q E := by
  rw [← bind_pure (exitIf c k)]
  exact .check hexit hgo

/-- A pointer check. -/
theorem Ensures.pointer {x : Option α} {k : Prog σ Unit} {Q : β → σ → Prop}
    (hexit : x = none → k.Ensures s (fun _ => E) E)
    (hgo : ∀ a, x = some a → (f a).Ensures s Q E) : (orExit x k >>= f).Ensures s Q E := by
  cases x with
  | none => exact ensures_bind.mpr (ensures_bind.mpr ((hexit rfl).mono (fun _ _ h => h) fun _ h => h))
  | some a => exact hgo a rfl

/-- A call that may fail. -/
theorem Ensures.call {h : σ → Option σ} {k : Prog σ Unit} {g : Unit → Prog σ β}
    {Q : β → σ → Prop} (hexit : h s = none → k.Ensures s (fun _ => E) E)
    (hgo : ∀ s', h s = some s' → (g ()).Ensures s' Q E) : (tryModify h k >>= g).Ensures s Q E := by
  refine ensures_bind.mpr ?_
  cases hs : h s with
  | none =>
    have heq : tryModify h k s = (k >>= fun _ => stop) s := by simp only [tryModify, hs]
    unfold Ensures
    rw [heq]
    exact ensures_bind.mpr ((hexit hs).mono (fun _ _ h => h) fun _ h => h)
  | some s' =>
    have heq : tryModify h k s = .goOn () s' := by simp only [tryModify, hs]
    unfold Ensures
    rw [heq]
    exact hgo s' hs

/-- A call on a function's last line. -/
theorem Ensures.lastCall {h : σ → Option σ} {k : Prog σ Unit} {Q : Unit → σ → Prop}
    (hexit : h s = none → k.Ensures s (fun _ => E) E) (hgo : ∀ s', h s = some s' → Q () s') :
    (tryModify h k).Ensures s Q E := by
  rw [← bind_pure (tryModify h k)]
  exact .call hexit hgo

/-- What a run ensures of falling through holds where it has fallen through. -/
theorem Ensures.of_goOn {a : α} {s' : σ} (h : p.Ensures s Q E) (hp : p s = .goOn a s') :
    Q a s' := by
  unfold Ensures at h
  rwa [hp] at h

/-- A run ensures what holds of every end. -/
theorem Ensures.of_forall (hQ : ∀ a s', Q a s') (hE : ∀ s', E s') : p.Ensures s Q E := by
  unfold Ensures
  cases p s with
  | goOn a s' => exact hQ a s'
  | exit s' => exact hE s'

/-- What a run ensures of every end it ensures of its final state. -/
theorem Ensures.exec (h : p.Ensures s (fun _ => E) E) : E (p.exec s) := by
  unfold Ensures at h
  unfold Prog.exec
  cases hp : p s <;> rw [hp] at h <;> exact h

/-- A subroutine's two ends become the two values of its return code. -/
theorem Ensures.attempt {part : σ → τ} {put : σ → τ → σ} {p : Prog τ Unit} {Qt : τ → Prop}
    {Et : τ → Prop} {Q : Bool → σ → Prop} (h : p.Ensures (part s) (fun _ => Qt) Et)
    (hok : ∀ t, Qt t → Q true (put s t)) (hfail : ∀ t, Et t → Q false (put s t)) :
    (attempt part put p).Ensures s Q E := by
  unfold Ensures at h
  unfold Ensures Prog.attempt
  cases hp : p (part s) with
  | goOn a t => rw [hp] at h; exact hok t h
  | exit t => rw [hp] at h; exact hfail t h

/-- The loop rule: `I i` holds before round `i`. -/
theorem Ensures.forUpTo {body : Nat → Prog σ Unit} {I : Nat → σ → Prop}
    (hbody : ∀ i s', I i s' → (body i).Ensures s' (fun _ => I (i + 1)) E) :
    ∀ (n start : Nat) (s : σ), I start s →
      (forUpTo body start n).Ensures s (fun _ => I (start + n)) E
  | 0, start, s, h => h
  | n + 1, start, s, h => by
    refine Ensures.bind (hbody start s h) fun _ s' h' => ?_
    rw [show start + (n + 1) = start + 1 + n from by omega]
    exact Ensures.forUpTo hbody n (start + 1) s' h'

/-! ## Invariants -/

/-- Whichever way the computation ends, it keeps `I`. -/
def Keeps (I : σ → Prop) (p : Prog σ α) : Prop := ∀ s, I s → p.Ensures s (fun _ => I) I

section Keeps
variable {I : σ → Prop} {c : Prop} [Decidable c]

theorem Keeps.exec (h : p.Keeps I) (hs : I s) : I (p.exec s) := (h s hs).exec

theorem keeps_pure {a : α} : (pure a : Prog σ α).Keeps I := fun _ hs => hs

theorem keeps_stop : (stop : Prog σ α).Keeps I := fun _ hs => hs

theorem keeps_get : (get : Prog σ σ).Keeps I := fun _ hs => hs

theorem keeps_modify {g : σ → σ} (h : ∀ s, I s → I (g s)) : (modify g).Keeps I := h

theorem Keeps.bind (hp : p.Keeps I) (hf : ∀ a, (f a).Keeps I) : (p >>= f).Keeps I :=
  fun s hs => (hp s hs).bind fun a s' hs' => hf a s' hs'

theorem Keeps.onlyIf {p : Prog σ Unit} (hp : c → p.Keeps I) : (onlyIf c p).Keeps I :=
  fun s hs => .onlyIf (fun hc => hp hc s hs) fun _ => hs

theorem Keeps.exitIf {k : Prog σ Unit} (hk : k.Keeps I) : (exitIf c k).Keeps I :=
  fun s hs => .lastCheck (fun _ => hk s hs) fun _ => hs

theorem Keeps.orExit {x : Option α} {k : Prog σ Unit} (hk : k.Keeps I) : (orExit x k).Keeps I := by
  cases x with
  | none => exact hk.bind fun _ => keeps_stop
  | some a => exact keeps_pure

/-- A check, then the lines after it. -/
theorem Keeps.check {k : Prog σ Unit} {g : Unit → Prog σ β} (hk : k.Keeps I)
    (hg : (g ()).Keeps I) : (Prog.exitIf c k >>= g).Keeps I :=
  hk.exitIf.bind fun _ => hg

/-- A pointer check, then the lines after it. -/
theorem Keeps.pointer {x : Option α} {k : Prog σ Unit} (hk : k.Keeps I)
    (hf : ∀ a, (f a).Keeps I) : (Prog.orExit x k >>= f).Keeps I :=
  hk.orExit.bind hf

/-- A pointer that is there is not NULL. -/
theorem Keeps.found {a : α} {k : Prog σ Unit} (hf : (f a).Keeps I) :
    (Prog.orExit (some a) k >>= f).Keeps I :=
  hf

theorem Keeps.tryModify {h : σ → Option σ} {k : Prog σ Unit}
    (hh : ∀ s s', I s → h s = some s' → I s') (hk : k.Keeps I) : (tryModify h k).Keeps I :=
  fun s hs => .lastCall (fun _ => hk s hs) fun s' hs' => hh s s' hs hs'

theorem keeps_attempt {part : σ → τ} {put : σ → τ → σ} {p : Prog τ Unit}
    (h : ∀ s t, I s → I (put s t)) : (Prog.attempt part put p).Keeps I := by
  intro s hs
  have any : p.Ensures (part s) (fun _ _ => True) (fun _ => True) :=
    .of_forall (fun _ _ => trivial) fun _ => trivial
  exact .attempt any (fun t _ => h s t hs) fun t _ => h s t hs

theorem Keeps.forUpTo {body : Nat → Prog σ Unit} (h : ∀ i, (body i).Keeps I) (start n : Nat) :
    (forUpTo body start n).Keeps I :=
  fun s hs => Ensures.forUpTo (I := fun _ => I) (fun i s' hs' => h i s' hs') n start s hs

end Keeps

/-! ## Comparing two functions

Two functions that make the same checks line by line end in the same state; a
check that cannot fail may be missing from one of them. -/

theorem exitIf_of_not {c : Prop} [Decidable c] {k : Prog σ Unit} (h : ¬ c) :
    exitIf c k = pure () := if_neg h

theorem bind_of_goOn {a : α} {s' : σ} (h : p s = .goOn a s') : (p >>= f) s = f a s' := by
  show (match p s with | .goOn a s' => f a s' | .exit s' => .exit s') = _
  rw [h]

theorem bind_of_exit {s' : σ} (h : p s = .exit s') : (p >>= f) s = .exit s' := by
  show (match p s with | .goOn a s' => f a s' | .exit s' => .exit s') = _
  rw [h]

theorem exec_bind_of_goOn {a : α} {s' : σ} (h : p s = .goOn a s') :
    (p >>= f).exec s = (f a).exec s' := by
  rw [exec, bind_of_goOn h, exec]

theorem exec_bind_of_exit {s' : σ} (h : p s = .exit s') : (p >>= f).exec s = s' := by
  rw [exec, bind_of_exit h, Outcome.state]

/-- What is left of a function that returns is its state. -/
theorem return_eq {p : Prog σ Unit} : (p >>= fun _ => (stop : Prog σ α)) s = .exit (p.exec s) := by
  cases hp : p s with
  | goOn _ s' => rw [bind_of_goOn hp, exec, hp]; rfl
  | exit s' => rw [bind_of_exit hp, exec, hp]; rfl

/-- What follows a return is not run. -/
theorem exec_return {k : Prog σ Unit} : ((k >>= fun _ => stop) >>= f).exec s = k.exec s :=
  exec_bind_of_exit return_eq

section Compare
variable {c d : Prop} [Decidable c] [Decidable d] {k : Prog σ Unit} {g h : Unit → Prog σ β}

/-- A check that passes might as well not be there. -/
theorem exec_check_skip (hc : ¬ c) : (exitIf c k >>= g).exec s = (g ()).exec s := by
  rw [exitIf_of_not hc]
  rfl

/-- The same check in both functions, then their rests. -/
theorem exec_check_congr (hcd : c ↔ d) (hrest : ¬ c → (g ()).exec s = (h ()).exec s) :
    (exitIf c k >>= g).exec s = (exitIf d k >>= h).exec s := by
  by_cases hc : c
  · rw [exitIf, exitIf, if_pos hc, if_pos (hcd.mp hc), exec_return, exec_return]
  · rw [exec_check_skip hc, exec_check_skip fun hd => hc (hcd.mpr hd)]
    exact hrest hc

/-- The same pointer check in both functions, then their rests. -/
theorem exec_pointer_congr {x : Option α} {f f' : α → Prog σ β}
    (hrest : ∀ a, x = some a → (f a).exec s = (f' a).exec s) :
    (orExit x k >>= f).exec s = (orExit x k >>= f').exec s := by
  cases x with
  | none => exact exec_return.trans exec_return.symm
  | some a => exact hrest a rfl

end Compare

end Prog
end EarlyExit
