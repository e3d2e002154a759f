/-
# Comparison without type parameters

The rule for two functions first adapts a source with type parameters to its
target; every other rule only asks about parts.  `plain` is comparison that has no
answer once it meets such a source, and gives the answer of comparison otherwise
(`isSubtype_of_plain`).  That it has one says that no function with type
parameters was compared.

`Ends c t a t'` says that a run of `c` on `t` ends with the answer `a` and leaves
`t'`, in a monad where it may not.
-/

import GradualTyping.Proofs.Sound.Layers

namespace GradualTyping

open TypeTable List Operations

/-! ### Runs that end -/

/-- Monads over a table in which a run may end with an answer. -/
class Ending (m : Type → Type) [Monad m] [MonadLiftT TableM m] where
  Ends {α : Type} (c : m α) (t : TypeTable) (a : α) (t' : TypeTable) : Prop
  pure {α : Type} {a b : α} {t t' : TypeTable} :
    Ends (pure a) t b t' ↔ b = a ∧ t' = t
  bind {α β : Type} {c : m α} {f : α → m β} {t t' : TypeTable} {b : β} :
    Ends (c >>= f) t b t' ↔ ∃ a t1, Ends c t a t1 ∧ Ends (f a) t1 b t'
  lift {α : Type} {c : TableM α} {t t' : TypeTable} {a : α} :
    Ends (liftM c : m α) t a t' ↔ c t = (a, t')

export Ending (Ends)

instance : Ending TableM where
  Ends c t a t' := c t = (a, t')
  pure {_ a b t t'} := by
    show (a, t) = (b, t') ↔ _
    rw [Prod.mk.injEq, eq_comm, @eq_comm _ t]
  bind {_ _ c f t _ _} :=
    ⟨fun h => ⟨(c t).1, (c t).2, rfl, h⟩, fun ⟨a, t1, hc, hf⟩ => by
      show f (c t).1 (c t).2 = _
      rw [hc]
      exact hf⟩
  lift := Iff.rfl

instance : Ending (OptionT TableM) where
  Ends c t a t' := c.run t = (some a, t')
  pure {_ a b t t'} := by
    show (some a, t) = (some b, t') ↔ _
    rw [Prod.mk.injEq, Option.some_inj, eq_comm, @eq_comm _ t]
  bind {_ _ c f t t' b} := by
    have run : (c >>= f).run t = match c.run t with
        | (some a, t1) => (f a).run t1
        | (none, t1) => (none, t1) := by
      rw [OptionT.run_bind]
      show ((c.run t).1.elim (Pure.pure none) fun a => (f a).run : TableM (Option _))
        (c.run t).2 = _
      obtain ⟨o, t1⟩ := c.run t
      cases o <;> rfl
    rw [run]
    constructor
    · intro h
      split at h
      · next a t1 hc => exact ⟨a, t1, hc, h⟩
      · cases h
    · rintro ⟨a, t1, hc, hf⟩
      rw [hc]
      exact hf
  lift {_ c t t' a} := by
    show (some (c t).1, (c t).2) = (some a, t') ↔ c t = (a, t')
    rw [Prod.mk.injEq, Option.some_inj, Prod.ext_iff]

section Ending

variable {t t' : TypeTable}

/-- A guard that stops leaves the table, tripped. -/
theorem runs_of_stopped (s : t.Sound) (h : enter t = (false, t')) :
    t'.Sound ∧ t.Runs t' ∧ ¬ t'.Untripped := by
  rcases untripped_or with ht | ht
  · obtain rfl : t = t' := congrArg Prod.snd ((enter_of_tripped ht).symm.trans h)
    exact ⟨s, .refl t, fun hu => hu.not_isSome ht⟩
  · by_cases hd : t.limits.maxDepth ≤ t.depth
    · obtain rfl : t.trip = t' := congrArg Prod.snd ((enter_of_limit ht hd).symm.trans h)
      exact ⟨s.trip, runs_trip ht, fun hu => nomatch hu⟩
    · cases (enter_of_lt ht (Nat.not_le.1 hd)).symm.trans h

/-- A guard that lets pass goes one level deeper. -/
theorem deeper_of_passed (h : enter t = (true, t')) :
    t' = t.deeper ∧ t.depth < t.limits.maxDepth := by
  rcases untripped_or with ht | ht
  · cases (enter_of_tripped ht).symm.trans h
  · by_cases hd : t.limits.maxDepth ≤ t.depth
    · cases (enter_of_limit ht hd).symm.trans h
    · exact ⟨(congrArg Prod.snd ((enter_of_lt ht (Nat.not_le.1 hd)).symm.trans h)).symm,
        Nat.not_le.1 hd⟩

/-- A run through the guard is stopped by it, or is a run of the body. -/
theorem ends_guarded {m : Type → Type} [Monad m] [MonadLiftT TableM m] [Ending m] {α : Type}
    {tripped a : α} {body : m α} (h : Ends (guarded tripped body) t a t') :
    enter t = (false, t') ∧ a = tripped ∨
      ∃ t1, enter t = (true, t.deeper) ∧ Ends body t.deeper a t1 ∧ t' = t1.shallower := by
  obtain ⟨passed, t1, he, h⟩ := Ending.bind.1 h
  have he := Ending.lift.1 he
  cases passed with
  | false =>
    obtain ⟨rfl, rfl⟩ := Ending.pure.1 h
    exact .inl ⟨he, rfl⟩
  | true =>
    obtain ⟨rfl, -⟩ := deeper_of_passed he
    obtain ⟨b, t2, hb, h⟩ := Ending.bind.1 h
    obtain ⟨_, t3, hl, h⟩ := Ending.bind.1 h
    obtain ⟨rfl, rfl⟩ := Ending.pure.1 h
    obtain rfl : t2.shallower = t' := congrArg Prod.snd (Ending.lift.1 hl)
    exact .inr ⟨t2, he, hb, rfl⟩

end Ending

namespace Subtyping

/-! ### Plain comparison -/

/-- Two functions, the first with type parameters. -/
def comparesGeneric (t : TypeTable) (sub sup : TypeId) : Bool :=
  match t.resolve sub, t.resolve sup with
  | .function f, .function _ => !f.typeParams.isEmpty
  | _, _ => false

/-- One step of comparison that gives up where it would adapt a source. -/
def plainStep (deeper : Operations) (ask : Assumptions → Ask (OptionT TableM))
    (assumed : Assumptions) (sub sup : TypeId) : OptionT TableM Bool := do
  let t ← (get : TableM TypeTable)
  if settled t sub sup || assumed.contains (sub, sup) then return true
  else if comparesGeneric t sub sup then failure
  else guarded false (clause deeper (ask ((sub, sup) :: assumed)) sub sup)

/-- Comparison that gives up where it would adapt a source, with a number of levels left. -/
def plain : Nat → Assumptions → Ask (OptionT TableM)
  | 0 => plainStep .inert fun _ _ _ => pure false
  | n + 1 => plainStep (.withLevels n) (plain n)

section Steps

variable {ops : Operations} {assumed : Assumptions} {sub sup : TypeId} {t t' : TypeTable} {a : Bool}

theorem step_of_holds {ask : Assumptions → Ask TableM}
    (h : settled t sub sup = true ∨ (sub, sup) ∈ assumed) :
    step ops ask assumed sub sup t = (true, t) := by
  show (if _ then _ else _ : TableM Bool) t = _
  split
  · rfl
  · next hs =>
    rw [if_pos (contains_iff_mem.2 (h.resolve_left hs))]
    rfl

theorem step_of_open {ask : Assumptions → Ask TableM} (hs : settled t sub sup = false)
    (ha : (sub, sup) ∉ assumed) :
    step ops ask assumed sub sup t =
      guarded false (clause ops (ask ((sub, sup) :: assumed)) sub sup) t := by
  show (if _ then _ else _ : TableM Bool) t = _
  rw [if_neg (by rw [hs]; exact Bool.false_ne_true), if_neg fun h => ha (contains_iff_mem.1 h)]

/-- A plain comparison that ends holds at once, or is a run of a clause. -/
theorem ends_plainStep {ask : Assumptions → Ask (OptionT TableM)}
    (h : Ends (plainStep ops ask assumed sub sup) t a t') :
    a = true ∧ t' = t ∧ (settled t sub sup = true ∨ (sub, sup) ∈ assumed) ∨
      settled t sub sup = false ∧ (sub, sup) ∉ assumed ∧ comparesGeneric t sub sup = false ∧
        Ends (guarded false (clause ops (ask ((sub, sup) :: assumed)) sub sup)) t a t' := by
  obtain ⟨t1, t2, hg, h⟩ := Ending.bind.1 h
  have hg : (get : TableM TypeTable) t = (t1, t2) := Ending.lift.1 hg
  obtain ⟨rfl, rfl⟩ : t = t1 ∧ t = t2 := Prod.mk.inj hg
  split at h
  · next hs =>
    rw [Bool.or_eq_true, contains_iff_mem] at hs
    obtain ⟨rfl, rfl⟩ := Ending.pure.1 h
    exact .inl ⟨rfl, rfl, hs⟩
  · next hs =>
    rw [Bool.or_eq_true, contains_iff_mem, not_or, Bool.not_eq_true] at hs
    split at h
    · cases h
    · next hg => exact .inr ⟨hs.1, hs.2, Bool.eq_false_iff.2 hg, h⟩

end Steps

/-! ### Its answer -/

/-- A run of which every end is an end of another, and that runs on the table. -/
def Erases {m m' : Type → Type} [Monad m] [MonadLiftT TableM m] [Ending m] [Monad m']
    [MonadLiftT TableM m'] [Ending m'] (t : TypeTable) (c : m Bool) (c' : m' Bool) : Prop :=
  ∀ a t', Ends c t a t' → Ends c' t a t' ∧ t'.Sound ∧ t.Runs t'

section Erases

variable {m m' : Type → Type} [Monad m] [MonadLiftT TableM m] [Ending m] [Monad m']
  [MonadLiftT TableM m'] [Ending m'] {ops : Operations} {t : TypeTable}

theorem Erases.pure (s : t.Sound) (b : Bool) :
    Erases t (Pure.pure b : m Bool) (Pure.pure b : m' Bool) := by
  intro a t' he
  obtain ⟨rfl, rfl⟩ := Ending.pure.1 he
  exact ⟨Ending.pure.2 ⟨rfl, rfl⟩, s, .refl _⟩

theorem Erases.bind {c : m Bool} {c' : m' Bool} {f : Bool → m Bool} {f' : Bool → m' Bool}
    (hc : Erases t c c') (hf : ∀ a t1, t1.Sound → t.Runs t1 → Erases t1 (f a) (f' a)) :
    Erases t (c >>= f) (c' >>= f') := by
  intro b t' he
  obtain ⟨a, t1, ha, hb⟩ := Ending.bind.1 he
  obtain ⟨ha', s1, r1⟩ := hc a t1 ha
  obtain ⟨hb', s2, r2⟩ := hf a t1 s1 r1 b t' hb
  exact ⟨Ending.bind.2 ⟨a, t1, ha', hb'⟩, s2, r1.trans r2⟩

theorem tandem_erases (hops : ops.Safe) {ask : Ask m} {ask' : Ask m'}
    (h : ∀ {t a b}, t.Sound → t.Has a → t.Has b → Erases t (ask a b) (ask' a b)) :
    Tandem ops ops ask ask' (fun _ => True) (fun t c c' => c' = c ∧ Safe t c) Erases where
  const s b := .pure s b
  atom s ha hb := h s ha hb
  and hc hd := by
    refine hc.bind fun a t1 s1 r1 => ?_
    cases a with
    | true => exact hd t1 s1 r1
    | false => exact .pure s1 false
  both hc hd := hc.bind fun _ t1 s1 r1 => (hd t1 s1 r1).bind fun _ _ s2 _ => .pure s2 _
  any {t ps} s hps := by
    induction ps generalizing t with
    | nil => exact .pure s false
    | cons p ps ih =>
      obtain ⟨hp, hps⟩ := below_cons.1 hps
      refine Erases.bind (h s hp.1 hp.2) fun a t1 s1 r1 => ?_
      cases a with
      | true => exact .pure s1 true
      | false => exact ih s1 (r1 hps)
  read {t _ c k k'} s hc hk := by
    intro a t' he
    obtain ⟨x, t1, hx, he⟩ := Ending.bind.1 he
    have hx := Ending.lift.1 hx
    obtain rfl : t = t1 := by rw [← hc t, hx]
    obtain ⟨he', s', r'⟩ := hk t (.refl s) a t' (by rwa [hx])
    rw [hx] at he'
    exact ⟨Ending.bind.2 ⟨x, t, Ending.lift.2 hx, he'⟩, s', r'⟩
  run {t _ _ c c' k k'} hc hk := by
    obtain ⟨rfl, safe⟩ := hc
    intro a t' he
    obtain ⟨x, t1, hx, he⟩ := Ending.bind.1 he
    obtain ⟨s1, r1, hx'⟩ := Leaves.ends safe (Ending.lift.1 hx)
    obtain ⟨he', s2, r2⟩ := hk t1 x s1 r1 hx' a t' he
    exact ⟨Ending.bind.2 ⟨x, t1, Ending.lift.2 (Ending.lift.1 hx), he'⟩, s2, r1.trans r2⟩
  reduced? s hid := ⟨rfl, safe_reduced? hops s hid⟩
  member? s hid := ⟨rfl, Members.safe_member? hops s hid⟩
  anyKey s := ⟨rfl, Reduction.safe_anyKey s⟩
  adapt s hf hg _ := ⟨rfl, safe_adapt hops s hf hg⟩

end Erases

theorem erases_plainStep {deeper : Operations} (hdeeper : deeper.Safe)
    {ask : Assumptions → Ask (OptionT TableM)} {ask' : Assumptions → Ask TableM}
    (h : ∀ assumed {t a b}, t.Sound → t.Has a → t.Has b →
      Erases t (ask assumed a b) (ask' assumed a b))
    {t : TypeTable} (s : t.Sound) {assumed : Assumptions} {sub sup : TypeId}
    (hsub : t.Has sub) (hsup : t.Has sup) :
    Erases t (plainStep deeper ask assumed sub sup) (step deeper ask' assumed sub sup) := by
  intro a t' he
  show step deeper ask' assumed sub sup t = (a, t') ∧ _
  rcases ends_plainStep he with ⟨rfl, rfl, holds⟩ | ⟨hs, ha, -, he⟩
  · exact ⟨step_of_holds holds, s, .refl _⟩
  · rw [step_of_open hs ha, guarded_eq]
    rcases ends_guarded he with ⟨stopped, rfl⟩ | ⟨t1, passed, body, rfl⟩
    · rw [stopped]
      obtain ⟨s', r', -⟩ := runs_of_stopped s stopped
      exact ⟨rfl, s', r'⟩
    · rw [passed]
      have tandem := tandem_erases hdeeper (h ((sub, sup) :: assumed))
      have clauses := tandem.clause s.deeper hsub hsup fun _ _ _ _ => trivial
      obtain ⟨body', s1, r1⟩ := clauses a t1 body
      have body' : clause deeper (ask' ((sub, sup) :: assumed)) sub sup t.deeper = (a, t1) := body'
      dsimp only
      rw [body']
      exact ⟨rfl, s1.shallower, r1.shallower⟩

/-- **A plain comparison that ends gives the answer of comparison.** -/
theorem erases_plain (n : Nat) {t : TypeTable} (s : t.Sound) (assumed : Assumptions)
    {sub sup : TypeId} (hsub : t.Has sub) (hsup : t.Has sup) :
    Erases t (plain n assumed sub sup) ((withLevels n).isSubtype assumed sub sup) := by
  induction n generalizing t assumed sub sup with
  | zero =>
    exact erases_plainStep safe_inert (fun _ _ _ _ s _ _ => .pure s false) s
      hsub hsup
  | succ n ih =>
    exact erases_plainStep (safe_withLevels n) (fun _ _ _ _ s ha hb => ih s _ ha hb) s
      hsub hsup

end Subtyping

end GradualTyping
