import Mathlib.Data.List.Forall2
import Mathlib.Data.List.Perm.Basic
import Ebaf.Runs

/-! # A channel that loses, repeats and reorders

A sender makes a message of each request it is handed, a receiver makes something of
each message that arrives, and in between a message may be lost, repeated or
overtaken.  What the ends do for one message (`Honours`) they do for all of them in
every run, and no message comes from nowhere (`Account`).
-/
namespace Channel

/-- The two ends: `A` is what the sender is asked, `M` a message, `B` what the
receiver meets at an arrival, and `C` what it makes of the message. -/
structure Ends (S R A M B C : Type) where
  emit : S → A → S × M
  take : R → B → M → R × C

/-- The ends and what is in flight between them. -/
structure State (S R M C : Type) where
  sender : S
  receiver : R
  flight : List M
  arrived : List C

inductive Act (A B : Type) where
  | send (a : A)
  | lose (i : Nat)
  | double (i : Nat)
  | deliver (i : Nat) (b : B)

namespace Act
variable {A B : Type}

def request : Act A B → Option A
  | send a => some a
  | _ => none

def arrival : Act A B → Option B
  | deliver _ b => some b
  | _ => none

def isLoss : Act A B → Bool
  | lose _ => true
  | _ => false

def isDoubling : Act A B → Bool
  | double _ => true
  | _ => false

/-- Nothing is lost or repeated, and the oldest message arrives first. -/
def orderly : Act A B → Bool
  | send _ => true
  | deliver 0 _ => true
  | _ => false

end Act

variable {S R A M B C : Type}

def step (ends : Ends S R A M B C) (s : State S R M C) : Act A B → Option (State S R M C)
  | .send a =>
    let out := ends.emit s.sender a
    some { s with sender := out.1, flight := s.flight ++ [out.2] }
  | .lose i => s.flight[i]?.map fun _ => { s with flight := s.flight.eraseIdx i }
  | .double i => s.flight[i]?.map fun m => { s with flight := s.flight ++ [m] }
  | .deliver i b => s.flight[i]?.map fun m =>
    let out := ends.take s.receiver b m
    { s with receiver := out.1, flight := s.flight.eraseIdx i, arrived := s.arrived ++ [out.2] }

/-- Nothing has happened yet. -/
def State.init (s : S) (r : R) : State S R M C := ⟨s, r, [], []⟩

/-- What the sender was asked, in order. -/
def requests (acts : List (Act A B)) : List A := acts.filterMap Act.request

/-- What the arrivals meet, in order. -/
def arrivals (acts : List (Act A B)) : List B := acts.filterMap Act.arrival

/-- The messages a step puts on the wire. -/
def State.puts (ends : Ends S R A M B C) (s : State S R M C) : Act A B → List M
  | .send a => [(ends.emit s.sender a).2]
  | .double i => s.flight[i]?.toList
  | .lose _ | .deliver _ _ => []

/-- **The wire**: all the messages that are ever put on it, whatever becomes of them. -/
def wire (ends : Ends S R A M B C) : State S R M C → List (Act A B) → List M
  | _, [] => []
  | s, act :: acts =>
    s.puts ends act ++ ((step ends s act).map fun s' => wire ends s' acts).getD []

/-- What is agreed about one message: which requests are made and what arrivals meet;
`Carries` relates a request to its message, `Yields` to what the receiver makes of it;
`Sent` and `Took` say what the ends have become after some messages. -/
structure Terms (S R A M B C : Type) where
  asks : A → Prop
  meets : B → Prop
  Carries : A → M → Prop
  Yields : A → C → Prop
  Sent : S → List A → Prop
  Took : R → List A → Prop

/-- **The ends honour the terms**, one message at a time. -/
structure Honours (ends : Ends S R A M B C) (v : Terms S R A M B C) : Prop where
  carries : ∀ s a, v.asks a → v.Carries a (ends.emit s a).2
  yields : ∀ r b a m, v.meets b → v.Carries a m → v.Yields a (ends.take r b m).2
  sent : ∀ s a l, v.asks a → v.Sent s l → v.Sent (ends.emit s a).1 (l ++ [a])
  took : ∀ r b a m l, v.meets b → v.Carries a m → v.Took r l →
    v.Took (ends.take r b m).1 (l ++ [a])

/-- The terms cover what the ends are asked and meet. -/
def Terms.Covers (v : Terms S R A M B C) : Act A B → Prop
  | .send a => v.asks a
  | .deliver _ b => v.meets b
  | _ => True

theorem Terms.covers {v : Terms S R A M B C} {acts : List (Act A B)}
    (hasks : ∀ a ∈ requests acts, v.asks a) (hmeets : ∀ b ∈ arrivals acts, v.meets b) :
    ∀ act ∈ acts, v.Covers act := by
  intro act hact
  cases act with
  | send a => exact hasks a (List.mem_filterMap.mpr ⟨_, hact, rfl⟩)
  | deliver i b => exact hmeets b (List.mem_filterMap.mpr ⟨_, hact, rfl⟩)
  | lose _ | double _ => trivial

/-- Where the requests have gone: those that arrived, those in flight, those lost, and
those that were repeated. -/
structure Whereabouts (A : Type) where
  arrived : List A
  flight : List A
  lost : List A
  doubled : List A

/-- **The account of a run.**  Each message in flight carries a request, and each
arrival yields one; what arrived, is in flight or was lost is what was sent or
repeated; and without losses, repetitions and overtaking it is what was sent, in
order. -/
structure Account (v : Terms S R A M B C) (acts : List (Act A B))
    (s : State S R M C) (w : Whereabouts A) : Prop where
  flight : List.Forall₂ v.Carries w.flight s.flight
  arrived : List.Forall₂ v.Yields w.arrived s.arrived
  lost : w.lost.length = acts.countP Act.isLoss
  doubled : w.doubled.length = acts.countP Act.isDoubling
  known : ∀ a ∈ w.doubled, a ∈ requests acts
  conserved : (w.arrived ++ w.flight ++ w.lost).Perm (requests acts ++ w.doubled)
  inOrder : acts.all Act.orderly = true → w.arrived ++ w.flight = requests acts
  sender : v.Sent s.sender (requests acts)
  receiver : v.Took s.receiver w.arrived

/-! ## Positions -/

section Positions
variable {α β : Type} {P : α → β → Prop} {l : List α} {l' : List β} {i : Nat} {a : α} {b : β}

theorem forall₂_getElem? (h : List.Forall₂ P l l') (hi : l'[i]? = some b) :
    ∃ a, l[i]? = some a ∧ P a b := by
  induction h generalizing i with
  | nil => cases hi
  | @cons a b' l l' hab _ ih =>
    cases i with
    | zero =>
      obtain rfl := Option.some.inj hi
      exact ⟨a, rfl, hab⟩
    | succ i => exact ih hi

theorem forall₂_eraseIdx (h : List.Forall₂ P l l') (i : Nat) :
    List.Forall₂ P (l.eraseIdx i) (l'.eraseIdx i) := by
  induction h generalizing i with
  | nil => exact .nil
  | cons hab hrest ih =>
    cases i with
    | zero => exact hrest
    | succ i => exact .cons hab (ih i)

theorem perm_eraseIdx (hi : l[i]? = some a) : (a :: l.eraseIdx i).Perm l := by
  obtain ⟨hlt, rfl⟩ := List.getElem?_eq_some_iff.mp hi
  exact List.getElem_cons_eraseIdx_perm hlt

end Positions

/-! ## Runs -/

section Runs
variable {ends : Ends S R A M B C} {v : Terms S R A M B C} {acts : List (Act A B)}
  {s s' : State S R M C} {w : Whereabouts A}

theorem requests_append (acts rest : List (Act A B)) :
    requests (acts ++ rest) = requests acts ++ requests rest :=
  List.filterMap_append

/-- A request on the channel is one that was made. -/
theorem Account.mem_requests (h : Account v acts s w) {a : A}
    (ha : a ∈ w.arrived ∨ a ∈ w.flight ∨ a ∈ w.lost) : a ∈ requests acts := by
  have hmem : a ∈ w.arrived ++ w.flight ++ w.lost := by
    simp only [List.mem_append]
    rcases ha with ha | ha | ha
    · exact Or.inl (Or.inl ha)
    · exact Or.inl (Or.inr ha)
    · exact Or.inr ha
  rcases List.mem_append.mp (h.conserved.mem_iff.mp hmem) with ha | ha
  · exact ha
  · exact h.known a ha

/-- If nothing is lost, repeated or still on the way, what was sent has arrived. -/
theorem Account.arrived_perm (h : Account v acts s w) (hloss : acts.countP Act.isLoss = 0)
    (hdoubling : acts.countP Act.isDoubling = 0) (hflight : s.flight = []) :
    w.arrived.Perm (requests acts) := by
  have hlost : w.lost = [] := List.length_eq_zero_iff.mp (h.lost.trans hloss)
  have hdoubled : w.doubled = [] := List.length_eq_zero_iff.mp (h.doubled.trans hdoubling)
  have hnone : w.flight = [] := by
    have hin := h.flight
    rw [hflight] at hin
    exact List.forall₂_nil_right_iff.mp hin
  have hconserved := h.conserved
  rwa [hlost, hdoubled, hnone, List.append_nil, List.append_nil, List.append_nil] at hconserved

/-- Nothing has happened, and nothing is on the channel. -/
theorem account_init {s : S} {r : R} (hs : v.Sent s []) (hr : v.Took r []) :
    Account v [] (.init s r : State S R M C) ⟨[], [], [], []⟩ where
  flight := .nil
  arrived := .nil
  lost := rfl
  doubled := rfl
  known _ ha := by cases ha
  conserved := .nil
  inOrder _ := rfl
  sender := hs
  receiver := hr

/-- A message is sent. -/
theorem Account.send (h : Account v acts s w) (hends : Honours ends v) {a : A} (ha : v.asks a) :
    Account v (acts ++ [.send a])
      { s with
        sender := (ends.emit s.sender a).1
        flight := s.flight ++ [(ends.emit s.sender a).2] }
      { w with flight := w.flight ++ [a] } := by
  classical
  have hrequests : requests (acts ++ [Act.send a (B := B)]) = requests acts ++ [a] :=
    requests_append _ _
  constructor
  case flight => exact List.rel_append h.flight (.cons (hends.carries _ a ha) .nil)
  case arrived => exact h.arrived
  case lost =>
    rw [h.lost, List.countP_append]
    rfl
  case doubled =>
    rw [h.doubled, List.countP_append]
    rfl
  case known =>
    intro b hb
    rw [hrequests]
    exact List.mem_append_left _ (h.known b hb)
  case conserved =>
    -- one more is in flight, and one more was requested
    rw [List.perm_iff_count]
    intro b
    have hcount := List.perm_iff_count.mp h.conserved b
    simp only [hrequests, List.count_append] at hcount ⊢
    omega
  case inOrder =>
    intro hall
    rw [List.all_append, Bool.and_eq_true] at hall
    rw [hrequests, ← h.inOrder hall.1, List.append_assoc]
  case sender =>
    rw [hrequests]
    exact hends.sent _ a _ ha h.sender
  case receiver => exact h.receiver

/-- A message is lost. -/
theorem Account.lose (h : Account v acts s w) {i : Nat} {a : A} (ha : w.flight[i]? = some a) :
    Account v (acts ++ [.lose i]) { s with flight := s.flight.eraseIdx i }
      { w with flight := w.flight.eraseIdx i, lost := w.lost ++ [a] } := by
  classical
  have hrequests : requests (acts ++ [Act.lose i]) = requests acts :=
    (requests_append _ _).trans (List.append_nil _)
  constructor
  case flight => exact forall₂_eraseIdx h.flight i
  case arrived => exact h.arrived
  case lost =>
    rw [List.length_append, h.lost, List.countP_append]
    rfl
  case doubled =>
    rw [h.doubled, List.countP_append]
    rfl
  case known =>
    rw [hrequests]
    exact h.known
  case conserved =>
    rw [List.perm_iff_count]
    intro b
    have hcount := List.perm_iff_count.mp h.conserved b
    -- what is no longer in flight is the one that is lost
    have hpick := List.perm_iff_count.mp (perm_eraseIdx ha) b
    simp only [hrequests, List.count_append, List.count_cons, List.count_nil] at hcount hpick ⊢
    omega
  case inOrder =>
    -- a loss is not orderly
    intro hall
    simp [Act.orderly] at hall
  case sender =>
    rw [hrequests]
    exact h.sender
  case receiver => exact h.receiver

/-- A message is repeated: the copy is one of the same request. -/
theorem Account.double (h : Account v acts s w) {i : Nat} {a : A} {m : M}
    (ha : w.flight[i]? = some a) (hm : v.Carries a m) :
    Account v (acts ++ [.double i]) { s with flight := s.flight ++ [m] }
      { w with flight := w.flight ++ [a], doubled := w.doubled ++ [a] } := by
  classical
  have hrequests : requests (acts ++ [Act.double i]) = requests acts :=
    (requests_append _ _).trans (List.append_nil _)
  constructor
  case flight => exact List.rel_append h.flight (.cons hm .nil)
  case arrived => exact h.arrived
  case lost =>
    rw [h.lost, List.countP_append]
    rfl
  case doubled =>
    rw [List.length_append, h.doubled, List.countP_append]
    rfl
  case known =>
    intro b hb
    rw [hrequests]
    rcases List.mem_append.mp hb with hb | hb
    · exact h.known b hb
    · rw [List.mem_singleton.mp hb]
      exact h.mem_requests (Or.inr (Or.inl (List.mem_of_getElem? ha)))
  case conserved =>
    rw [List.perm_iff_count]
    intro b
    have hcount := List.perm_iff_count.mp h.conserved b
    simp only [hrequests, List.count_append] at hcount ⊢
    omega
  case inOrder =>
    intro hall
    simp [Act.orderly] at hall
  case sender =>
    rw [hrequests]
    exact h.sender
  case receiver => exact h.receiver

/-- A message arrives. -/
theorem Account.deliver (h : Account v acts s w) (hends : Honours ends v) {i : Nat} {b : B} {a : A}
    {m : M} (ha : w.flight[i]? = some a) (hm : v.Carries a m) (hb : v.meets b) :
    Account v (acts ++ [.deliver i b])
      { s with
        receiver := (ends.take s.receiver b m).1
        flight := s.flight.eraseIdx i
        arrived := s.arrived ++ [(ends.take s.receiver b m).2] }
      { w with arrived := w.arrived ++ [a], flight := w.flight.eraseIdx i } := by
  classical
  have hrequests : requests (acts ++ [Act.deliver i b]) = requests acts :=
    (requests_append _ _).trans (List.append_nil _)
  constructor
  case flight => exact forall₂_eraseIdx h.flight i
  case arrived => exact List.rel_append h.arrived (.cons (hends.yields _ b a m hb hm) .nil)
  case lost =>
    rw [h.lost, List.countP_append]
    rfl
  case doubled =>
    rw [h.doubled, List.countP_append]
    rfl
  case known =>
    rw [hrequests]
    exact h.known
  case conserved =>
    rw [List.perm_iff_count]
    intro x
    have hcount := List.perm_iff_count.mp h.conserved x
    -- what is no longer in flight is the one that arrived
    have hpick := List.perm_iff_count.mp (perm_eraseIdx ha) x
    simp only [hrequests, List.count_append, List.count_cons, List.count_nil] at hcount hpick ⊢
    omega
  case inOrder =>
    intro hall
    rw [List.all_append, Bool.and_eq_true] at hall
    -- only the oldest message may arrive
    cases i with
    | zero =>
      rw [hrequests, ← h.inOrder hall.1]
      cases hflight : w.flight with
      | nil => simp [hflight] at ha
      | cons x rest =>
        rw [hflight] at ha
        rw [Option.some.inj ha, List.eraseIdx_cons_zero, List.append_assoc, List.singleton_append]
    | succ i => simp [Act.orderly] at hall
  case sender =>
    rw [hrequests]
    exact h.sender
  case receiver => exact hends.took _ b a m _ hb hm h.receiver

/-- **One step keeps the account.** -/
theorem Account.step (h : Account v acts s w) (hends : Honours ends v) {act : Act A B}
    (hcovers : v.Covers act) (hstep : step ends s act = some s') : ∃ w', Account v (acts ++ [act]) s' w' := by
  cases act with
  | send a =>
    obtain rfl := Option.some.inj hstep
    exact ⟨_, h.send hends hcovers⟩
  | lose i =>
    obtain ⟨m, hm, rfl⟩ := Option.map_eq_some_iff.mp hstep
    obtain ⟨a, ha, -⟩ := forall₂_getElem? h.flight hm
    exact ⟨_, h.lose ha⟩
  | double i =>
    obtain ⟨m, hm, rfl⟩ := Option.map_eq_some_iff.mp hstep
    obtain ⟨a, ha, hcarries⟩ := forall₂_getElem? h.flight hm
    exact ⟨_, h.double ha hcarries⟩
  | deliver i b =>
    obtain ⟨m, hm, rfl⟩ := Option.map_eq_some_iff.mp hstep
    obtain ⟨a, ha, hcarries⟩ := forall₂_getElem? h.flight hm
    exact ⟨_, h.deliver hends ha hcarries hcovers⟩

/-- The account goes on along a run. -/
theorem Account.run (h : Account v acts s w) (hends : Honours ends v) {more : List (Act A B)}
    (hcovers : ∀ act ∈ more, v.Covers act) (hrun : Runs.run (Channel.step ends) s more = some s') :
    ∃ w', Account v (acts ++ more) s' w' := by
  induction more generalizing acts s w with
  | nil =>
    obtain rfl := Option.some.inj hrun
    exact ⟨w, by rwa [List.append_nil]⟩
  | cons act more ih =>
    obtain ⟨m, hm, hrest⟩ := Runs.exists_of_run_cons hrun
    obtain ⟨w', hw'⟩ := h.step hends (hcovers act List.mem_cons_self) hm
    rw [List.append_cons]
    exact ih hw' (fun act hact => hcovers act (List.mem_cons_of_mem _ hact)) hrest

/-- **Every run has its account.** -/
theorem exists_account {r : R} {s : S} {t : State S R M C} (hends : Honours ends v)
    (hs : v.Sent s []) (hr : v.Took r []) (hcovers : ∀ act ∈ acts, v.Covers act)
    (hrun : Runs.run (step ends) (.init s r) acts = some t) : ∃ w, Account v acts t w :=
  (account_init hs hr).run hends hcovers hrun

/-- What a step puts on the wire carries a request, its own if it is no repetition. -/
theorem Account.puts (h : Account v acts s w) (hends : Honours ends v) {act : Act A B}
    (hcovers : v.Covers act) :
    ∃ l, List.Forall₂ v.Carries l (s.puts ends act) ∧
      (act.isDoubling = false → l = act.request.toList) := by
  cases act with
  | send a => exact ⟨[a], .cons (hends.carries _ a hcovers) .nil, fun _ => rfl⟩
  | lose _ | deliver _ _ => exact ⟨[], .nil, fun _ => rfl⟩
  | double i =>
    rw [State.puts]
    cases hm : s.flight[i]? with
    | none => exact ⟨[], .nil, fun hn => by cases hn⟩
    | some m =>
      obtain ⟨a, -, hcarries⟩ := forall₂_getElem? h.flight hm
      exact ⟨[a], .cons hcarries .nil, fun hn => by cases hn⟩

/-- **The wire carries the requests**, once each if nothing is repeated. -/
theorem Account.wire (h : Account v acts s w) (hends : Honours ends v) {more : List (Act A B)}
    (hcovers : ∀ act ∈ more, v.Covers act) (hrun : Runs.run (Channel.step ends) s more = some s') :
    ∃ l, List.Forall₂ v.Carries l (Channel.wire ends s more) ∧
      (more.countP Act.isDoubling = 0 → l = requests more) := by
  induction more generalizing acts s w with
  | nil => exact ⟨[], .nil, fun _ => rfl⟩
  | cons act more ih =>
    obtain ⟨m, hm, hrest⟩ := Runs.exists_of_run_cons hrun
    obtain ⟨hact, hmore⟩ := List.forall_mem_cons.mp hcovers
    obtain ⟨w', hw'⟩ := h.step hends hact hm
    obtain ⟨l, hcarries, hown⟩ := h.puts hends hact
    obtain ⟨l', hcarries', hown'⟩ := ih hw' hmore hrest
    refine ⟨l ++ l', ?_, fun hsingle => ?_⟩
    · rw [Channel.wire, hm, Option.map_some, Option.getD_some]
      exact List.rel_append hcarries hcarries'
    · rw [List.countP_cons, Nat.add_eq_zero_iff] at hsingle
      have hone : act.isDoubling = false := by
        by_contra hn
        rw [if_pos (Bool.not_eq_false _ ▸ hn)] at hsingle
        cases hsingle.2
      rw [hown hone, hown' hsingle.1, requests, requests, List.filterMap_cons]
      cases act.request <;> rfl

/-- What is on the wire in the course of a run. -/
theorem exists_wire {r : R} {s : S} {t : State S R M C} (hends : Honours ends v)
    (hs : v.Sent s []) (hr : v.Took r []) (hcovers : ∀ act ∈ acts, v.Covers act)
    (hrun : Runs.run (step ends) (.init s r) acts = some t) :
    ∃ l, List.Forall₂ v.Carries l (wire ends (.init s r) acts) ∧
      (acts.countP Act.isDoubling = 0 → l = requests acts) :=
  (account_init hs hr).wire hends hcovers hrun

end Runs

end Channel
