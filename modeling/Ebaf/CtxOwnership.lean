import Ebaf.CtxCalls
import Ebaf.Custody

/-! # Who owns a cipher context

A context is created once and released at most once, and until then it is either
in the slot or with one call that has still to store or to release it.  A ledger
keeps the contexts' places (`Custodial`), and every phase of a call moves a
context from one place to another.  What is in the slot is the context of the
last exchange (`Historic`).
-/
namespace Ebaf
open Custody CStrings

variable {P : Type} [DecidableEq P] {a : P → CtxAnswers} {w w' : CtxWorld P} {p : P}
  {c : CtxObject P}

/-! ## Places -/

/-- Where a context can be. -/
inductive CtxPlace (P : Type) where
  | slot
  | released
  | held (p : P)
  deriving DecidableEq

/-- The context a call has still to store or to release. -/
def CallPhase.held : CallPhase P → Option (CtxObject P)
  | .created newCtx => some newCtx
  | .exchanged _ oldCtx => oldCtx
  | .called | .returned _ => none

/-- **The ledger agrees with the state**: with the slot, with what the calls hold,
and with what has been created and released. -/
structure Custodial (w : CtxWorld P) (κ : Ledger (CtxObject P) (CtxPlace P)) : Prop where
  slot : Cell κ .slot w.mem.slot
  held : ∀ p, Cell κ (.held p) (w.phase p).held
  released : Pile κ .released w.mem.released
  created : Known κ w.mem.created
  fresh : ∀ c, w.phase c.maker = .called → κ c = none

namespace Custodial
variable {κ : Ledger (CtxObject P) (CtxPlace P)}

theorem initial (config : StoredConfig) :
    Custodial (CtxWorld.initial config : CtxWorld P) (fun _ => none) := by
  constructor
  · intro c
    simp [CtxWorld.initial]
  · intro p c
    simp [CtxWorld.initial, CallPhase.held]
  · intro c
    simp [CtxWorld.initial]
  · intro c
    simp [CtxWorld.initial]
  · intro c _
    rfl

omit [DecidableEq P] in
/-- The calls that have not begun are the same, and not the one that moves. -/
theorem called_of_update [DecidableEq P] {phase : CallPhase P} {q : P} (hphase : phase ≠ .called)
    (hq : Function.update w.phase p phase q = .called) : q ≠ p ∧ w.phase q = .called := by
  by_cases heq : q = p
  · subst heq
    rw [Function.update_self] at hq
    exact absurd hq hphase
  · rw [Function.update_of_ne heq] at hq
    exact ⟨heq, hq⟩

/-- What the calls hold after one of them has moved. -/
theorem held_update {phase : CallPhase P} (hself : Cell κ (.held p) phase.held)
    (hother : ∀ q, q ≠ p → Cell κ (.held q) (w.phase q).held) (q : P) :
    Cell κ (.held q) (Function.update w.phase p phase q).held := by
  by_cases hq : q = p
  · subst hq
    rw [Function.update_self]
    exact hself
  · rw [Function.update_of_ne hq]
    exact hother q hq

/-- A phase that moves no context. -/
theorem stay (h : Custodial w κ) {phase : CallPhase P} {n : Int}
    (hheld : (w.phase p).held = phase.held) (hphase : phase ≠ .called) :
    Custodial { w with
      mem := { w.mem with retval := n }
      phase := Function.update w.phase p phase } κ := by
  refine ⟨h.slot, held_update ?_ fun q _ => h.held q, h.released, h.created, ?_⟩
  · rw [← hheld]
    exact h.held p
  · intro c hc
    exact h.fresh c (called_of_update hphase hc).2

/-- A context is created: the call holds it. -/
theorem create (h : Custodial w κ) (hp : w.phase p = .called) (hc : c.maker = p) :
    Custodial { w with
      mem := { w.mem with created := w.mem.created ++ [c] }
      phase := Function.update w.phase p (.created c) } (put κ c (.held p)) := by
  have fresh : κ c = none := h.fresh c (hc ▸ hp)
  have nowhere : ∀ x, κ c ≠ some x := by
    intro x hx
    rw [fresh] at hx
    cases hx
  have empty : Cell κ (.held p) none := by
    have held := h.held p
    rwa [hp] at held
  refine ⟨?_, held_update empty.put_into ?_, ?_, h.created.put_new fresh, ?_⟩
  · exact h.slot.put_past (fun hs => nowhere _ ((h.slot c).mp hs)) (by simp)
  · intro q hq
    exact (h.held q).put_past (fun hs => nowhere _ ((h.held q c).mp hs)) (by simpa using hq)
  · exact h.released.put_past (nowhere _) (by simp)
  · intro c' hc'
    obtain ⟨hne, hcalled⟩ := called_of_update (by simp) hc'
    rw [put_of_ne]
    · exact h.fresh c' hcalled
    · rintro rfl
      exact hne hc

/-- A call releases the context it holds, and returns. -/
theorem release (h : Custodial w κ) {n : Int} (hp : (w.phase p).held = some c) :
    Custodial { w with
      mem := { w.mem with released := w.mem.released ++ [c], retval := n }
      phase := Function.update w.phase p (.returned n) } (put κ c .released) := by
  have place : κ c = some (.held p) := (h.held p c).mp hp
  have elsewhere : ∀ {x}, x ≠ .held p → κ c ≠ some x := by
    intro x hx hc
    rw [place] at hc
    exact hx (Option.some.inj hc).symm
  have full : Cell κ (.held p) (some c) := by
    rw [← hp]
    exact h.held p
  have born : (κ c).isSome := by
    rw [place]
    rfl
  refine ⟨?_, held_update (full.put_away (by simp)) ?_, ?_, h.created.put_old born, ?_⟩
  · exact h.slot.put_past (fun hs => elsewhere (by simp) ((h.slot c).mp hs)) (by simp)
  · intro q hq
    refine (h.held q).put_past (fun hs => ?_) (by simp)
    exact elsewhere (by simpa using hq) ((h.held q c).mp hs)
  · exact h.released.put_onto (elsewhere (by simp))
  · intro c' hc'
    obtain ⟨-, hcalled⟩ := called_of_update (by simp) hc'
    have unborn := h.fresh c' hcalled
    rw [put_of_ne]
    · exact unborn
    · rintro rfl
      rw [unborn] at place
      cases place

/-- A call exchanges the context it holds for the one in the slot. -/
theorem exchange (h : Custodial w κ) (hp : w.phase p = .created c) :
    Custodial {
      mem := { w.mem with slot := some c }
      phase := Function.update w.phase p (.exchanged c w.mem.slot)
      exchanges := w.exchanges ++ [c] } (exchange κ (.held p) .slot) := by
  have full : Cell κ (.held p) (some c) := by
    have held := h.held p
    rwa [hp] at held
  refine ⟨full.exchange_left, held_update h.slot.exchange_right ?_, ?_, h.created.exchange, ?_⟩
  · intro q hq
    exact (h.held q).exchange_past (by simpa using hq) (by simp)
  · exact h.released.exchange_past (by simp) (by simp)
  · intro c' hc'
    obtain ⟨-, hcalled⟩ := called_of_update (by simp) hc'
    rw [Custody.exchange, h.fresh c' hcalled]
    rfl

/-- **Every phase of a call keeps a ledger.** -/
theorem move (h : Custodial w κ) (hm : CtxWorld.CallMove p w w') : ∃ κ', Custodial w' κ' := by
  cases hm with
  | failed n _ hp hs =>
    subst hs
    exact ⟨κ, h.stay (by rw [hp]; rfl) (by simp)⟩
  | created hp _ hs =>
    subst hs
    exact ⟨_, h.create hp rfl⟩
  | dropped c hp hs =>
    subst hs
    exact ⟨_, h.release (by rw [hp]; rfl)⟩
  | exchanged c hp hs =>
    subst hs
    exact ⟨_, h.exchange hp⟩
  | finished c old hp hs =>
    subst hs
    cases old with
    | none =>
      rw [Option.toList, List.append_nil]
      exact ⟨κ, h.stay (by rw [hp]; rfl) (by simp)⟩
    | some old => exact ⟨_, h.release (by rw [hp]; rfl)⟩
  | ended _ _ hs =>
    subst hs
    exact ⟨κ, h⟩

theorem step (h : Custodial w κ) (action : CtxAction P) : ∃ κ', Custodial (w.step a action) κ' := by
  cases action with
  | configure config => exact ⟨κ, h.slot, h.held, h.released, h.created, h.fresh⟩
  | call p => exact h.move (w.stepCall_move a p)

end Custodial

/-- **Every run keeps a ledger.** -/
theorem run_custodial (a : P → CtxAnswers) (config : StoredConfig) (actions : List (CtxAction P)) :
    ∃ κ, Custodial ((CtxWorld.initial config).run a actions) κ := by
  refine CtxWorld.run_induction (I := fun w => ∃ κ, Custodial w κ) ?_ ⟨_, .initial config⟩ actions
  rintro w action ⟨κ, h⟩
  exact h.step action

/-! ## What is in the slot -/

/-- Parameters with an algorithm and exactly as many key bytes as it takes. -/
def BpfCryptoParams.FullKey (params : BpfCryptoParams) : Prop :=
  params.key.length = params.keyLen.toNat ∧
    ((params.algo = lit "cbc(aes)" ∧ params.keyLen = 16) ∨
      (params.algo = lit "chacha20" ∧ params.keyLen = 32))

/-- What is copied out of a configuration that passes the checks is a full key. -/
theorem params_fullKey {config : EbafCryptoConfig}
    (hlen : config.key.length = ebafCryptoMaxKeyBytes) (h : config.KeyFits) :
    config.params.FullKey := by
  rcases h with ⟨halgo, hkey⟩ | ⟨halgo, hkey⟩
  · have hne : ¬ config.algo = ebafAlgoChacha20 := by
      rw [halgo]
      decide
    refine ⟨?_, Or.inl ⟨if_neg hne, hkey⟩⟩
    show (config.key.take (if _ then _ else _)).length = config.keyLen.toNat
    rw [if_neg hne, List.length_take, hlen, hkey]
    rfl
  · refine ⟨?_, Or.inr ⟨if_pos halgo, hkey⟩⟩
    show (config.key.take (if _ then _ else _)).length = config.keyLen.toNat
    rw [if_pos halgo, List.length_take, hlen, hkey]
    rfl

/-- **The history of a state**: the slot holds the context of the last exchange; a
call whose context has been stored releases the old one and returns 0; contexts
are created from configurations that pass the checks. -/
structure Historic (w : CtxWorld P) : Prop where
  slot : w.mem.slot = w.exchanges.getLast?
  stored : ∀ c ∈ w.exchanges,
    (∃ old, w.phase c.maker = .exchanged c old) ∨ w.phase c.maker = .returned 0
  config : w.mem.config.key.length = ebafCryptoMaxKeyBytes
  built : ∀ c ∈ w.mem.created, c.params.FullKey
  own : ∀ p c, w.phase p = .created c → c.maker = p

namespace Historic

omit [DecidableEq P] in
/-- A call that has stored nothing yet has made no context that is stored. -/
theorem maker_ne (h : Historic w) (hp : ∀ c old, w.phase p ≠ .exchanged c old)
    (hzero : w.phase p ≠ .returned 0) (hc : c ∈ w.exchanges) : c.maker ≠ p := by
  rintro rfl
  rcases h.stored c hc with ⟨old, hold⟩ | hret
  · exact hp c old hold
  · exact hzero hret

/-- A phase that stores nothing, of a call that has not stored anything. -/
theorem stored_of_not (h : Historic w) {phase : CallPhase P}
    (hp : ∀ c old, w.phase p ≠ .exchanged c old) (hzero : w.phase p ≠ .returned 0)
    (hc : c ∈ w.exchanges) :
    (∃ old, Function.update w.phase p phase c.maker = .exchanged c old) ∨
      Function.update w.phase p phase c.maker = .returned 0 := by
  rw [Function.update_of_ne (h.maker_ne hp hzero hc)]
  exact h.stored c hc

/-- A call stores the context it has made. -/
theorem own_update (h : Historic w) {phase : CallPhase P}
    (hphase : ∀ c, phase = .created c → c.maker = p) (q : P) (c : CtxObject P)
    (hq : Function.update w.phase p phase q = .created c) : c.maker = q := by
  by_cases heq : q = p
  · subst heq
    rw [Function.update_self] at hq
    exact hphase c hq
  · rw [Function.update_of_ne heq] at hq
    exact h.own q c hq

omit [DecidableEq P] in
theorem initial (config : StoredConfig) : Historic (CtxWorld.initial config : CtxWorld P) := by
  constructor
  · rfl
  · intro c hc
    cases hc
  · exact config.2
  · intro c hc
    cases hc
  · intro p c hp
    cases hp

/-- **Every phase of a call keeps the history.** -/
theorem move (h : Historic w) (hm : CtxWorld.CallMove p w w') : Historic w' := by
  cases hm with
  | failed n _ hp hs =>
    subst hs
    refine ⟨h.slot, ?_, h.config, h.built, h.own_update (by simp)⟩
    intro c hc
    exact h.stored_of_not (by simp [hp]) (by simp [hp]) hc
  | created hp hfits hs =>
    subst hs
    refine ⟨h.slot, ?_, h.config, ?_, h.own_update (by rintro _ ⟨⟩; rfl)⟩
    · intro c hc
      exact h.stored_of_not (by simp [hp]) (by simp [hp]) hc
    · intro c hc
      rcases List.mem_append.mp hc with hold | hnew
      · exact h.built c hold
      · obtain rfl := List.mem_singleton.mp hnew
        exact params_fullKey h.config hfits
  | dropped c hp hs =>
    subst hs
    refine ⟨h.slot, ?_, h.config, h.built, h.own_update (by simp)⟩
    intro c hc
    exact h.stored_of_not (by simp [hp]) (by simp [hp]) hc
  | exchanged c hp hs =>
    subst hs
    refine ⟨?_, ?_, h.config, h.built, h.own_update (by simp)⟩
    · exact List.getLast?_concat.symm
    · intro c' hc'
      rcases List.mem_append.mp hc' with hold | hnew
      · exact h.stored_of_not (by simp [hp]) (by simp [hp]) hold
      · obtain rfl := List.mem_singleton.mp hnew
        refine Or.inl ⟨w.mem.slot, ?_⟩
        show Function.update w.phase p _ c'.maker = _
        rw [h.own p c' hp, Function.update_self]
  | finished c old hp hs =>
    subst hs
    refine ⟨h.slot, ?_, h.config, h.built, h.own_update (by simp)⟩
    intro c' hc'
    show (∃ old, Function.update w.phase p _ c'.maker = _) ∨
      Function.update w.phase p _ c'.maker = _
    by_cases heq : c'.maker = p
    · rw [heq, Function.update_self]
      exact Or.inr rfl
    · rw [Function.update_of_ne heq]
      exact h.stored c' hc'
  | ended _ _ hs =>
    subst hs
    exact h

theorem step (h : Historic w) (action : CtxAction P) : Historic (w.step a action) := by
  cases action with
  | configure config => exact ⟨h.slot, h.stored, config.2, h.built, h.own⟩
  | call p => exact h.move (w.stepCall_move a p)

end Historic

theorem run_historic (a : P → CtxAnswers) (config : StoredConfig) (actions : List (CtxAction P)) :
    Historic ((CtxWorld.initial config).run a actions) :=
  CtxWorld.run_induction (fun _ action h => h.step action) (.initial config) actions

/-- The exchanges of a run are not forgotten. -/
theorem mem_exchanges_run (hc : c ∈ w.exchanges) (actions : List (CtxAction P)) :
    c ∈ (w.run a actions).exchanges := by
  refine CtxWorld.run_induction (I := fun w => c ∈ w.exchanges) ?_ hc actions
  rintro w action hc
  cases action with
  | configure _ => exact hc
  | call p =>
    have hm := w.stepCall_move a p
    show c ∈ (w.stepCall a p).exchanges
    cases hm with
    | exchanged _ _ hs =>
      rw [hs]
      exact List.mem_append_left _ hc
    | failed _ _ _ hs | created _ _ hs | dropped _ _ hs | finished _ _ _ hs | ended _ _ hs =>
      rw [hs]
      exact hc

/-- A phase changes the slot only by storing the context of its call. -/
theorem slot_stepCall (w : CtxWorld P) (p : P) :
    (w.stepCall a p).mem.slot = w.mem.slot ∨
      ∃ c, w.phase p = .created c ∧ c ∈ (w.stepCall a p).exchanges := by
  have hm := w.stepCall_move a p
  cases hm with
  | exchanged c hp hs =>
    refine Or.inr ⟨c, hp, ?_⟩
    rw [hs]
    exact List.mem_append_right _ (List.mem_singleton_self c)
  | failed _ _ _ hs | created _ _ hs | dropped _ _ hs | finished _ _ _ hs | ended _ _ hs =>
    rw [hs]
    exact Or.inl rfl

/-! ## The main result -/

namespace CtxWorld

/-- A context is in a place: in the slot, released, or with a call. -/
def At (w : CtxWorld P) (c : CtxObject P) : CtxPlace P → Prop
  | .slot => w.mem.slot = some c
  | .released => c ∈ w.mem.released
  | .held p => (w.phase p).held = some c

/-- No call is running. -/
def AtRest (w : CtxWorld P) : Prop :=
  ∀ p, w.phase p = .called ∨ ∃ n, w.phase p = .returned n

end CtxWorld

namespace Custodial
variable {κ : Ledger (CtxObject P) (CtxPlace P)}

/-- A ledger has what the state has. -/
theorem at_iff (h : Custodial w κ) (x : CtxPlace P) : w.At c x ↔ κ c = some x := by
  cases x with
  | slot => exact h.slot c
  | released => exact h.released.mem_iff
  | held p => exact h.held p c

/-- What has been created has a place in the ledger. -/
theorem exists_place (h : Custodial w κ) (hc : c ∈ w.mem.created) : ∃ x, κ c = some x :=
  Option.isSome_iff_exists.mp (h.created.mem_iff.mp hc)

/-- **A context that has been created is in one place.** -/
theorem existsUnique_at (h : Custodial w κ) (hc : c ∈ w.mem.created) : ∃! x, w.At c x := by
  obtain ⟨x, hx⟩ := h.exists_place hc
  refine ⟨x, (h.at_iff x).mpr hx, ?_⟩
  intro y hy
  rw [h.at_iff, hx] at hy
  exact (Option.some.inj hy).symm

/-- A context is released at most once. -/
theorem count_released_le (h : Custodial w κ) (c : CtxObject P) :
    w.mem.released.count c ≤ 1 := by
  rw [h.released c]
  split <;> omega

/-- **When no call is running, nothing is lost**: a context is in the slot or has
been released, once. -/
theorem slot_or_released (h : Custodial w κ) (hrest : w.AtRest) (hc : c ∈ w.mem.created) :
    (w.mem.slot = some c ∧ w.mem.released.count c = 0) ∨
      (w.mem.slot ≠ some c ∧ w.mem.released.count c = 1) := by
  obtain ⟨x, hx⟩ := h.exists_place hc
  cases x with
  | slot =>
    refine Or.inl ⟨(h.slot c).mpr hx, ?_⟩
    rw [h.released c, hx, if_neg (by simp)]
  | released =>
    refine Or.inr ⟨fun hslot => ?_, ?_⟩
    · have hx' := (h.slot c).mp hslot
      rw [hx] at hx'
      cases hx'
    · rw [h.released c, hx, if_pos rfl]
  | held p =>
    have hheld := (h.held p c).mpr hx
    rcases hrest p with hp | ⟨n, hp⟩
    · rw [hp] at hheld
      cases hheld
    · rw [hp] at hheld
      cases hheld

/-- What is in the slot has been created. -/
theorem created_of_slot (h : Custodial w κ) (hslot : w.mem.slot = some c) : c ∈ w.mem.created := by
  rw [h.created.mem_iff, (h.slot c).mp hslot]
  rfl

end Custodial

/-- **A call that fails changes nothing**: none of the phases of a call that returns
something else than 0 changes the slot. -/
theorem Historic.slot_of_failed (h : Historic w) {n : Int} (hn : n ≠ 0)
    (actions : List (CtxAction P)) (hrun : Historic ((w.stepCall a p).run a actions))
    (hret : ((w.stepCall a p).run a actions).phase p = .returned n) :
    (w.stepCall a p).mem.slot = w.mem.slot := by
  rcases slot_stepCall (a := a) w p with hsame | ⟨c, hp, hc⟩
  · exact hsame
  · -- the call has stored its context, so it cannot have returned anything but 0
    have hmaker : c.maker = p := h.own p c hp
    rcases hrun.stored c (mem_exchanges_run hc actions) with ⟨old, hold⟩ | hzero
    · rw [hmaker, hret] at hold
      cases hold
    · rw [hmaker, hret] at hzero
      cases hzero
      exact absurd rfl hn

/-- **Ownership of the contexts.**  For any number of calls of `create_crypto_ctx`,
overlapping in any way, whatever the configurations and the kernel's answers: a
context that has been created is in one place, and it has been released at most
once; when no call is running, it is in the slot or has been released, once.  A
call that returns something else than 0 has not changed the slot in any of its
phases.  What is in the slot is the context of the last exchange, created with an
algorithm and a full key for it. -/
theorem ctx_ownership (a : P → CtxAnswers) (config : StoredConfig) (actions : List (CtxAction P)) :
    let w := (CtxWorld.initial config).run a actions
    (∀ c ∈ w.mem.created, (∃! x, w.At c x) ∧ w.mem.released.count c ≤ 1) ∧
      (w.AtRest → ∀ c ∈ w.mem.created,
        (w.mem.slot = some c ∧ w.mem.released.count c = 0) ∨
          (w.mem.slot ≠ some c ∧ w.mem.released.count c = 1)) ∧
      (∀ before p after n, actions = before ++ .call p :: after → w.phase p = .returned n → n ≠ 0 →
        ((CtxWorld.initial config).run a (before ++ [.call p])).mem.slot =
          ((CtxWorld.initial config).run a before).mem.slot) ∧
      ∀ c, w.mem.slot = some c → w.exchanges.getLast? = some c ∧ c.params.FullKey := by
  intro w
  obtain ⟨κ, hκ⟩ : ∃ κ, Custodial w κ := run_custodial a config actions
  have history : Historic w := run_historic a config actions
  refine ⟨?_, ?_, ?_, ?_⟩
  · intro c hc
    exact ⟨hκ.existsUnique_at hc, hκ.count_released_le c⟩
  · intro hrest c hc
    exact hκ.slot_or_released hrest hc
  · intro before p after n hactions hret hn
    have hrun : w = (((CtxWorld.initial config).run a before).stepCall a p).run a after := by
      show (CtxWorld.initial config).run a actions = _
      rw [hactions, CtxWorld.run_append]
      rfl
    rw [hrun] at history hret
    rw [CtxWorld.run_append]
    exact (run_historic a config before).slot_of_failed hn after history hret
  · intro c hslot
    rw [← history.slot]
    exact ⟨hslot, history.built c (hκ.created_of_slot hslot)⟩

end Ebaf
