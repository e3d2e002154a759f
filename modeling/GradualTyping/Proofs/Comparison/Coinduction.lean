/-
# Comparison is the greatest relation closed under the rules

Comparison assumes the pairs that are being compared further up.  What it decides
in the end can be said without assumptions and without order: two types are
comparable when some relation holds between them in which every pair is settled or
has the clause that its nodes select, with the questions of the clause answered by
the relation itself (`isSubtype_iff`).

A run of a clause changes the table on its way, and the relation is about the
table it leaves.  `Echoes` compares the two: the run of a rule on the table as it
was, and its *echo* on the final table, with questions answered by a relation.
Every step on the table is recalled, so the two can differ in the answers to
questions only.
-/

import GradualTyping.Proofs.Comparison.Plain
import GradualTyping.Proofs.Reachable

namespace GradualTyping

open TypeTable List Reduction

/-! ### The steps of a clause are recalled -/

theorem Operations.recalls_evaluate {n k : Nat} {t : TypeTable} (s : t.Sound) {id : TypeId}
    (hid : t.Has id) (rest : t.evaluating = []) :
    Recalls t ((withLevels n).evaluate id) ((withLevels k).evaluate id) := by
  have step : ∀ n, ∃ deeper : Operations, deeper.Safe ∧
      (withLevels n).evaluate id = step deeper id := by
    intro n
    cases n with
    | zero => exact ⟨inert, safe_inert, rfl⟩
    | succ n => exact ⟨withLevels n, safe_withLevels n, rfl⟩
  obtain ⟨deeper, hdeeper, hn⟩ := step n
  obtain ⟨deeper', -, hk⟩ := step k
  rw [hn, hk]
  exact recalls_step hdeeper s hid rest

namespace Subtyping

variable {t : TypeTable}

theorem recalls_reduced? {ops ops' : Operations} (s : t.Sound) {id : TypeId}
    (hid : t.Has id) (h : Recalls t (ops.evaluate id) (ops'.evaluate id)) :
    Recalls t (reduced? ops id) (reduced? ops' id) := by
  have split : ∀ ops, reduced? ops id =
      (return needsEvaluation (← get) id : TableM Bool) >>= fun needed => do
        if needed then
          let evaluated ← ops.evaluate id
          return if evaluated = id then none else some evaluated
        else return none := fun _ => rfl
  rw [split, split]
  refine .read (fun _ => rfl) (fun t' p => (p.agree s).comparedReduced hid) ?_
  split
  · refine h.bind fun t1 evaluated s1 _ he => .pure s1 ?_
    split
    · exact below_none
    · exact below_some.2 he
  · exact .pure s below_none

/-! ### Echoes -/

/-- A table between evaluations, with at most so many levels left. -/
structure AtRest (levels : Nat) (t : TypeTable) : Prop where
  evaluating : t.evaluating = []
  levels : t.limits.maxDepth ≤ t.depth + levels

theorem AtRest.runs {n : Nat} {t' : TypeTable} (h : AtRest n t) (r : t.Runs t') : AtRest n t' :=
  ⟨r.evaluating.trans h.evaluating, by rw [r.limits, r.depth]; exact h.levels⟩

theorem AtRest.deeper {n : Nat} (h : AtRest (n + 1) t) : AtRest n t.deeper :=
  ⟨h.evaluating, by have := h.levels; show t.limits.maxDepth ≤ t.depth + 1 + n; omega⟩

theorem atRest_operations (h : t.evaluating = []) : AtRest (t.limits.maxDepth - t.depth) t :=
  ⟨h, by omega⟩

/-- A run of a rule, and its echo on a final table: where the run holds, so does the echo (or,
backward, where the echo holds, so does the run), and the echo leaves the table alone. -/
def Echoes {m : Type → Type} [Monad m] [MonadLiftT TableM m] [Ending m] (levels : Nat)
    (forward : Bool) (final : TypeTable) (t : TypeTable) (c : m Bool) (c' : TableM Bool) : Prop :=
  AtRest levels t → ∀ a t', Ends c t a t' → t'.Sound ∧ t.Runs t' ∧
    (t'.Precedes final → (if forward then a else (c' final).1) = true →
      a = true ∧ c' final = (true, final))

section Echoes

variable {m : Type → Type} [Monad m] [MonadLiftT TableM m] [Ending m] {n : Nat} {forward : Bool}
  {final t : TypeTable}

theorem Echoes.pure (s : t.Sound) (b : Bool) :
    Echoes n forward final t (Pure.pure b : m Bool) (Pure.pure b) := by
  intro _ a t' he
  obtain ⟨rfl, rfl⟩ := Ending.pure.1 he
  refine ⟨s, .refl _, fun _ h => ?_⟩
  have h : a = true := by cases forward <;> exact h
  exact ⟨h, by rw [h]; rfl⟩

theorem and_eq {c d : TableM Bool} (t : TypeTable) :
    (do if ← c then d else return false : TableM Bool) t =
      if (c t).1 = true then d (c t).2 else (false, (c t).2) := by
  show (if (c t).1 = true then d else Pure.pure false : TableM Bool) (c t).2 = _
  split <;> rfl

theorem Echoes.and {c d : m Bool} {c' d' : TableM Bool} (hc : Echoes n forward final t c c')
    (hd : ∀ t1, t1.Sound → t.Runs t1 → Echoes n forward final t1 d d') :
    Echoes n forward final t (do if ← c then d else return false)
      (do if ← c' then d' else return false) := by
  have left : ((do if ← c' then d' else return false : TableM Bool) final).1 = true →
      (c' final).1 = true := by
    rw [and_eq]
    cases (c' final).1 with
    | true => exact fun _ => rfl
    | false => exact fun h => h
  intro rest b t' he
  obtain ⟨a, t1, ha, he⟩ := Ending.bind.1 he
  obtain ⟨s1, r1, echo⟩ := hc rest a t1 ha
  cases a with
  | false =>
    obtain ⟨rfl, rfl⟩ := Ending.pure.1 he
    refine ⟨s1, r1, fun p h => ?_⟩
    cases forward with
    | true => cases h
    | false => exact absurd (echo p (left h)).1 Bool.false_ne_true
  | true =>
    obtain ⟨s2, r2, echo2⟩ := hd t1 s1 r1 (rest.runs r1) b t' he
    refine ⟨s2, r1.trans r2, fun p h => ?_⟩
    have hleft : (if forward = true then true else (c' final).1) = true := by
      cases forward with
      | true => rfl
      | false => exact left h
    rw [and_eq, (echo (r2.precedes p) hleft).2, if_pos rfl] at h ⊢
    exact echo2 p h

/-- The echo of a conjunction that runs both parts. -/
theorem Echoes.both {c d : m Bool} {c' d' : TableM Bool} (hc : Echoes n forward final t c c')
    (hd : ∀ t1, t1.Sound → t.Runs t1 → Echoes n forward final t1 d d') :
    Echoes n forward final t (do let x ← c; let y ← d; return x && y)
      (do let x ← c'; let y ← d'; return x && y) := by
  intro rest b t' he
  obtain ⟨x, t1, hx, he⟩ := Ending.bind.1 he
  obtain ⟨y, t2, hy, he⟩ := Ending.bind.1 he
  obtain ⟨rfl, rfl⟩ := Ending.pure.1 he
  obtain ⟨s1, r1, echo1⟩ := hc rest x t1 hx
  obtain ⟨s2, r2, echo2⟩ := hd t1 s1 r1 (rest.runs r1) y t' hy
  refine ⟨s2, r1.trans r2, fun p h => ?_⟩
  have run : (do let x ← c'; let y ← d'; return x && y : TableM Bool) final =
      ((c' final).1 && (d' (c' final).2).1, (d' (c' final).2).2) := rfl
  rw [run] at h ⊢
  have hleft : (if forward = true then x else (c' final).1) = true := by
    cases forward with
    | true => exact (Bool.and_eq_true_iff.1 h).1
    | false => exact (Bool.and_eq_true_iff.1 h).1
  obtain ⟨rfl, hc'⟩ := echo1 (r2.precedes p) hleft
  rw [hc'] at h ⊢
  have hright : (if forward = true then y else (d' final).1) = true := by
    cases forward with
    | true => exact h
    | false => exact h
  obtain ⟨rfl, hd'⟩ := echo2 p hright
  rw [hd']
  exact ⟨rfl, rfl⟩

theorem anyM_pure_of_mem {α : Type} {xs : List α} {x : α} {q : α → Bool} (hx : x ∈ xs) (h : q x = true)
    : xs.anyM (fun x => (Pure.pure (q x) : TableM Bool)) t = (true, t) := by
  rw [anyM_pure, any_eq_true.2 ⟨x, hx, h⟩]
  rfl

/-- The echo of a disjunction of questions. -/
theorem Echoes.any {ask : Ask m} {R : TypeId → TypeId → Bool} {ps : List (TypeId × TypeId)}
    (h : ∀ {t a b}, t.Sound → t.Has a → t.Has b →
      Echoes n forward final t (ask a b) (Pure.pure (R a b))) (s : t.Sound) (hps : t.Has ps) :
    Echoes n forward final t (ps.anyM fun p => ask p.1 p.2)
      (ps.anyM fun p => Pure.pure (R p.1 p.2)) := by
  intro rest b t' he
  rw [anyM_pure]
  induction ps generalizing t with
  | nil =>
    obtain ⟨rfl, rfl⟩ := Ending.pure.1 he
    exact ⟨s, .refl _, fun _ h => by cases forward <;> cases h⟩
  | cons p ps ih =>
    obtain ⟨hp, hps⟩ := below_cons.1 hps
    obtain ⟨a, t1, ha, he⟩ := Ending.bind.1 he
    obtain ⟨s1, r1, echo⟩ := h s hp.1 hp.2 rest a t1 ha
    rw [any_cons]
    cases a with
    | true =>
      obtain ⟨rfl, rfl⟩ := Ending.pure.1 he
      refine ⟨s1, r1, fun later h => ⟨rfl, ?_⟩⟩
      have holds : (R p.1 p.2 || ps.any fun p => R p.1 p.2) = true := by
        cases forward with
        | true =>
          have hp : R p.1 p.2 = true := congrArg Prod.fst (echo later rfl).2
          rw [hp, Bool.true_or]
        | false => exact h
      rw [holds]
      rfl
    | false =>
      obtain ⟨s2, r2, echo2⟩ := ih s1 (r1 hps) (rest.runs r1) he
      refine ⟨s2, r1.trans r2, fun later h => ?_⟩
      -- Backward, the relation cannot hold of a pair that was denied.
      have hrest : (if forward = true then b else ps.any fun p => R p.1 p.2) = true := by
        cases forward with
        | true => exact h
        | false =>
          rcases Bool.or_eq_true_iff.1 h with h | h
          · exact absurd (echo (r2.precedes later) h).1 Bool.false_ne_true
          · exact h
      obtain ⟨hb, hany⟩ := echo2 later hrest
      have hps : (ps.any fun p => R p.1 p.2) = true := congrArg Prod.fst hany
      rw [hps, Bool.or_true]
      exact ⟨hb, rfl⟩

/-- **Echoes run in tandem**, when the questions are answered as the relation answers them. -/
theorem tandem_echoes (k : Nat) {ask : Ask m} {R : TypeId → TypeId → Bool}
    (h : ∀ {t a b}, t.Sound → t.Has a → t.Has b →
      Echoes n forward final t (ask a b) (Pure.pure (R a b))) :
    Tandem (.withLevels n) (.withLevels k) ask (fun a b => Pure.pure (R a b))
      (fun f => f.typeParams = []) (fun t c c' => AtRest n t → Recalls t c c')
      (Echoes n forward final) where
  const s b := .pure s b
  atom s ha hb := h s ha hb
  and hc hd := hc.and fun t1 s1 r1 => hd t1 s1 r1
  both hc hd := hc.both fun t1 s1 r1 => hd t1 s1 r1
  any s hps := .any h s hps
  read {t _ c k k'} s hc hk := by
    intro rest a t' he
    obtain ⟨x, t1, hx, he⟩ := Ending.bind.1 he
    have hx := Ending.lift.1 hx
    obtain rfl : t = t1 := by rw [← hc t, hx]
    have he : Ends (k (c t).1) t a t' := by rwa [hx]
    obtain ⟨s', r', -⟩ := hk t (.refl s) rest a t' he
    refine ⟨s', r', fun p => ?_⟩
    have start := r'.precedes p
    have run : ((liftM c : TableM _) >>= k') final = k' (c final).1 final := by
      show k' (c final).1 (c final).2 = _
      rw [hc]
    rw [run]
    exact (hk final ⟨start.agree s, start.aliases⟩ rest a t' he).2.2 p
  run {t _ _ c c' k k'} hc hk := by
    intro rest a t' he
    obtain ⟨x, t1, hx, he⟩ := Ending.bind.1 he
    obtain ⟨s1, r1, hbelow, again⟩ := Leaves.ends (hc rest) (Ending.lift.1 hx)
    obtain ⟨s2, r2, echo⟩ := hk t1 x s1 r1 hbelow (rest.runs r1) a t' he
    refine ⟨s2, r1.trans r2, fun p => ?_⟩
    have run : ((liftM c' : TableM _) >>= k') final = k' x final := by
      show k' (c' final).1 (c' final).2 = _
      rw [again final (r2.precedes p)]
    rw [run]
    exact echo p
  reduced? s hid rest :=
    recalls_reduced? s hid (Operations.recalls_evaluate s hid rest.evaluating)
  member? s hid rest := by
    unfold Members.member?
    exact (Operations.recalls_evaluate s hid rest.evaluating).bind fun _ _ s1 _ he =>
      Members.stable_ofEvaluated? s1 he
  anyKey s _ := stable_anyKey s
  adapt s hf _ hplain _ := by
    unfold adapt
    rw [hplain]
    exact .pure s hf

end Echoes

/-! ### Relations closed under the rules -/

/-- The clause of a pair on a table, with its questions answered by a relation. -/
def clauseOver (t : TypeTable) (R : TypeId → TypeId → Bool) (a b : TypeId) : Bool × TypeTable :=
  (clause t.operations (fun x y => pure (R x y)) a b : TableM Bool) t

/-- A relation between types of a table in which every pair is settled or has its clause, with
the questions of the clause answered by the relation. -/
def Consistent (t : TypeTable) (R : TypeId → TypeId → Bool) : Prop :=
  ∀ a b, R a b = true → Below t.size a ∧ Below t.size b ∧
    (settled t a b = true ∨ (clauseOver t R a b).1 = true)

theorem comparesGeneric_congr {t' : TypeTable} (g : t.Grows t') {a b : TypeId}
    (ha : t.Has a) (hb : t.Has b) : comparesGeneric t' a b = comparesGeneric t a b := by
  rw [comparesGeneric, g.resolve ha, g.resolve hb]
  rfl

/-- A source that is not generic has no type parameters where functions are compared. -/
theorem typeParams_of_not_generic {a b : TypeId}
    (h : comparesGeneric t a b = false) {f g : Signature} (hf : t.resolve a = .function f)
    (hg : t.resolve b = .function g) : f.typeParams = [] := by
  rw [comparesGeneric, hf, hg] at h
  simpa using h

section Consistent

variable {n : Nat} {final t t' : TypeTable} {R : TypeId → TypeId → Bool} {a b : TypeId}
variable {assumed : Assumptions}
  {holds : Bool}

theorem precedes_of_shallower (p : t.shallower.Precedes final) : t.Precedes final :=
  ⟨⟨p.types, p.limits⟩, p.sound, p.aliases, p.remembered, p.started, p.untripped⟩

/-- A plain comparison that ends is settled or assumed, or a run of its clause. -/
theorem ends_plain (s : t.Sound) (rest : AtRest n t)
    (he : Ends (plain n assumed a b) t holds t') (later : t'.Precedes final) :
    holds = true ∧ (settled t a b = true ∨ (a, b) ∈ assumed) ∨
      settled t a b = false ∧ comparesGeneric t a b = false ∧ ∃ k t1, n = k + 1 ∧
        Ends (clause (.withLevels k) (plain k ((a, b) :: assumed)) a b) t.deeper holds t1 ∧
        t1.Precedes final := by
  cases n with
  | zero =>
    rcases ends_plainStep he with ⟨hb, -, h⟩ | ⟨hs, -, hg, he⟩
    · exact .inl ⟨hb, h⟩
    · rcases ends_guarded he with ⟨stopped, -⟩ | ⟨t1, passed, -⟩
      · exact absurd later.started (runs_of_stopped s stopped).2.2
      · exact absurd rest.levels (Nat.not_le.2 (deeper_of_passed passed).2)
  | succ k =>
    rcases ends_plainStep he with ⟨hb, -, h⟩ | ⟨hs, -, hg, he⟩
    · exact .inl ⟨hb, h⟩
    · rcases ends_guarded he with ⟨stopped, -⟩ | ⟨t1, -, body, rfl⟩
      · exact absurd later.started (runs_of_stopped s stopped).2.2
      · exact .inr ⟨hs, hg, k, t1, rfl, body, precedes_of_shallower later⟩

/-- **A pair of a consistent relation is never denied.** -/
theorem echoes_of_consistent (closed : Consistent final R) (n : Nat) (s : t.Sound)
    (assumed : Assumptions) (ha : t.Has a) (hb : t.Has b) :
    Echoes n false final t (plain n assumed a b) (pure (R a b)) := by
  induction n using Nat.strongRecOn generalizing t assumed a b with
  | ind n ih =>
    intro rest holds t' he
    obtain ⟨-, s', r'⟩ := erases_plain n s assumed ha hb holds t' he
    refine ⟨s', r', fun later (hR : R a b = true) => ⟨?_, by rw [hR]; rfl⟩⟩
    rcases ends_plain s rest he later with ⟨h, -⟩ | ⟨hs, hg, k, t1, rfl, body, later1⟩
    · exact h
    · have g := (r'.precedes later).toGrows
      have echo : Echoes k false final t.deeper
          (clause (.withLevels k) (plain k ((a, b) :: assumed)) a b)
          (clause final.operations (fun x y => pure (R x y)) a b) :=
        (tandem_echoes _ fun s hx hy => ih k (Nat.lt_succ_self k) s _ hx hy).clause s.deeper ha hb
          fun _ _ hf hg' => typeParams_of_not_generic hg hf hg'
      refine ((echo rest.deeper holds t1 body).2.2 later1 ?_).1
      rcases (closed a b hR).2.2 with h | h
      · rw [settled_congr g ha hb, hs] at h
        cases h
      · exact h

/-! ### The relation that a comparison supports -/

/-- A pair of a relation that is closed under the rules up to assumptions. -/
def Supported (t : TypeTable) (assumed : Assumptions) (a b : TypeId) : Prop :=
  ∃ S : TypeId → TypeId → Bool, S a b = true ∧ ∀ x y, S x y = true →
    Below t.size x ∧ Below t.size y ∧ (settled t x y = true ∨ (x, y) ∈ assumed ∨
      comparesGeneric t x y = false ∧ clauseOver t S x y = (true, t))

/-- More answers, more clauses. -/
theorem clauseOver_mono {S : TypeId → TypeId → Bool} (s : t.Sound) (rest : t.evaluating = [])
    (hu : t.Untripped) (hRS : ∀ x y, R x y = true → S x y = true) (ha : t.Has a)
    (hb : t.Has b) (hg : comparesGeneric t a b = false)
    (h : clauseOver t R a b = (true, t)) : clauseOver t S a b = (true, t) := by
  have echo : Echoes (t.limits.maxDepth - t.depth) true t t
      (clause t.operations (fun x y => pure (R x y)) a b : TableM Bool)
      (clause t.operations (fun x y => pure (S x y)) a b) := by
    refine Tandem.clause (tandem_echoes _ fun {t1 x y} s1 _ _ => ?_) s ha hb
      fun _ _ hf hg' => typeParams_of_not_generic hg hf hg'
    intro _ holds t' he
    obtain ⟨rfl, rfl⟩ := Ending.pure.1 he
    exact ⟨s1, .refl _, fun _ hR => ⟨hR, by rw [hRS x y hR]; rfl⟩⟩
  exact ((echo (atRest_operations rest) true t h).2.2 (.refl s hu) rfl).2

theorem supported_of_holds (ha : t.Has a) (hb : t.Has b)
    (h : settled t a b = true ∨ (a, b) ∈ assumed) : Supported t assumed a b := by
  refine ⟨fun x y => (x, y) == (a, b), beq_self_eq_true (a, b), fun x y hxy => ?_⟩
  obtain ⟨rfl, rfl⟩ := Prod.mk.inj (eq_of_beq hxy)
  exact ⟨ha, hb, h.imp_right .inl⟩

open Classical in
/-- An assumption is not needed where its clause holds over what it supports. -/
theorem supported_of_clause (s : t.Sound) (rest : t.evaluating = []) (hu : t.Untripped)
    (ha : t.Has a) (hb : t.Has b) (hg : comparesGeneric t a b = false)
    (h : clauseOver t (fun x y => decide (Supported t ((a, b) :: assumed) x y)) a b = (true, t)) :
    Supported t assumed a b := by
  let R : TypeId → TypeId → Bool := fun x y => decide (Supported t ((a, b) :: assumed) x y)
  let S : TypeId → TypeId → Bool := fun x y => R x y || (x, y) == (a, b)
  have hRS : ∀ x y, R x y = true → S x y = true := fun x y hR => by
    show (R x y || _) = true
    rw [hR, Bool.true_or]
  have hab : clauseOver t S a b = (true, t) := clauseOver_mono s rest hu hRS ha hb hg h
  refine ⟨S, ?_, fun x y hxy => ?_⟩
  · show (R a b || (a, b) == (a, b)) = true
    rw [beq_self_eq_true, Bool.or_true]
  rcases Bool.or_eq_true_iff.1 hxy with hR | heq
  · obtain ⟨S', hxy', closed⟩ := of_decide_eq_true hR
    obtain ⟨hx, hy, hsettled | hassumed | ⟨hgen, hclause⟩⟩ := closed x y hxy'
    · exact ⟨hx, hy, .inl hsettled⟩
    · rcases mem_cons.1 hassumed with heq | hassumed
      · obtain ⟨rfl, rfl⟩ := Prod.mk.inj heq
        exact ⟨hx, hy, .inr (.inr ⟨hg, hab⟩)⟩
      · exact ⟨hx, hy, .inr (.inl hassumed)⟩
    · -- Whatever `S'` holds of is supported by `S'` itself.
      have hS' : ∀ u v, S' u v = true → S u v = true := fun u v huv =>
        hRS u v (decide_eq_true ⟨S', huv, closed⟩)
      exact ⟨hx, hy, .inr (.inr ⟨hgen, clauseOver_mono s rest hu hS' hx hy hgen hclause⟩)⟩
  · obtain ⟨rfl, rfl⟩ := Prod.mk.inj (eq_of_beq heq)
    exact ⟨ha, hb, .inr (.inr ⟨hg, hab⟩)⟩

open Classical in
/-- **What a comparison affirms is supported.** -/
theorem echoes_supported (hrest : final.evaluating = []) (n : Nat) (s : t.Sound)
    (assumed : Assumptions) (ha : t.Has a) (hb : t.Has b) :
    Echoes n true final t (plain n assumed a b) (pure (decide (Supported final assumed a b))) := by
  induction n using Nat.strongRecOn generalizing t assumed a b with
  | ind n ih =>
    intro rest holds t' he
    obtain ⟨-, s', r'⟩ := erases_plain n s assumed ha hb holds t' he
    refine ⟨s', r', fun later (h : holds = true) => ⟨h, ?_⟩⟩
    suffices hs : Supported final assumed a b by rw [decide_eq_true hs]; rfl
    have g := (r'.precedes later).toGrows
    rcases ends_plain s rest he later with ⟨-, h⟩ | ⟨-, hg, k, t1, rfl, body, later1⟩
    · exact supported_of_holds (g ha) (g hb) (by rwa [settled_congr g ha hb])
    · have echo : Echoes k true final t.deeper
          (clause (.withLevels k) (plain k ((a, b) :: assumed)) a b)
          (clause final.operations
            (fun x y => pure (decide (Supported final ((a, b) :: assumed) x y))) a b) :=
        (tandem_echoes _ fun s hx hy => ih k (Nat.lt_succ_self k) s _ hx hy).clause s.deeper ha hb
          fun _ _ hf hg' => typeParams_of_not_generic hg hf hg'
      refine supported_of_clause later.sound hrest later.untripped (g ha) (g hb)
        ((comparesGeneric_congr g ha hb).trans hg) ?_
      exact ((echo rest.deeper holds t1 body).2.2 later1 h).2

end Consistent

/-- No function with type parameters is adapted when two types are compared. -/
def ComparesPlainly (t : TypeTable) (sub sup : TypeId) : Prop :=
  ∃ holds t', Ends (plain (t.limits.maxDepth - t.depth) [] sub sup) t holds t'

end Subtyping

open Subtyping

/-- **Comparison is the greatest relation closed under the rules.**  Unless the recursion guard
trips or a function with type parameters is compared, two types compare exactly if some relation
between types of the table that comparison leaves holds of them, in which every pair is settled,
or satisfies the clause that its nodes select with the questions answered by the relation,
evaluation being that of the table that comparison leaves. -/
theorem TypeTable.Reachable.isSubtype_iff {t : TypeTable} (h : t.Reachable) {sub sup : TypeId}
    (hsub : Below t.size sub) (hsup : Below t.size sup) (plainly : ComparesPlainly t sub sup)
    (untripped : (isSubtype sub sup t).2.Untripped) :
    (isSubtype sub sup t).1 = true ↔
      ∃ R, Consistent (isSubtype sub sup t).2 R ∧ R sub sup = true := by
  have s := h.sound
  have rest := h.quiescent.evaluating
  obtain ⟨holds, final, he⟩ := plainly
  obtain ⟨answer, s', r'⟩ := erases_plain _ s [] hsub hsup holds final he
  have run : isSubtype sub sup t = (holds, final) := answer
  rw [run] at untripped ⊢
  have last : final.Precedes final := .refl s' untripped
  have start := atRest_operations rest
  constructor
  · intro affirmed
    have hrest : final.evaluating = [] := r'.evaluating.trans rest
    have echo :=
      ((echoes_supported hrest _ s [] hsub hsup start holds final he).2.2 last affirmed).2
    obtain ⟨S, hS, closed⟩ : Supported final [] sub sup := by
      classical exact of_decide_eq_true (congrArg Prod.fst echo)
    refine ⟨S, fun x y hxy => ?_, hS⟩
    obtain ⟨hx, hy, hsettled | hassumed | ⟨-, hclause⟩⟩ := closed x y hxy
    · exact ⟨hx, hy, .inl hsettled⟩
    · exact absurd hassumed not_mem_nil
    · exact ⟨hx, hy, .inr (congrArg Prod.fst hclause)⟩
  · rintro ⟨R, closed, hR⟩
    exact ((echoes_of_consistent closed _ s [] hsub hsup start holds final he).2.2 last hR).1

/-- The fields of `{ value: number; readonly next: self }`. -/
def recursiveFields (self : TypeId) : List Property :=
  [{ name := "value", type := .number }, { name := "next", type := self, readonly := true }]

/-- `type name = { value: number; readonly next: name }` -/
def recursiveRecord (name : String) : TableM TypeId := do
  let self ← declareAlias name []
  let _ ← (defineAlias name (← objectOf (recursiveFields self) none)).run
  return self

theorem reachable_recursiveRecord {t : TypeTable} (h : t.Reachable) (name : String) :
    (recursiveRecord name t).2.Reachable := by
  have declared : Growing t (declareAlias name []) := growing_declareAlias h.sound below_nil
  have h := h.step (.declareAlias name []) below_nil
  have fields : (declareAlias name [] t).2.Has (recursiveFields (declareAlias name [] t).1) :=
    below_pair.2 ⟨h.sound.below_fixed rfl, declared.post⟩
  exact (h.step (.object _ none) ⟨fields, below_none⟩).step (.defineAlias name _)
    (safe_objectOf h.sound fields below_none).post

set_option maxRecDepth 20000 in
/-- Two recursive aliases of one shape compare, so a consistent relation holds of the two. -/
theorem isSubtype_iff_recursive :
    let a := recursiveRecord "A" (withLimits {})
    let b := recursiveRecord "B" a.2
    b.2.Reachable ∧ ComparesPlainly b.2 a.1 b.1 ∧ (isSubtype a.1 b.1 b.2).2.Untripped ∧
      ∃ R, Consistent (isSubtype a.1 b.1 b.2).2 R ∧ R a.1 b.1 = true := by
  intro a b
  have below : a.1.index < b.2.size ∧ b.1.index < b.2.size := by
    subst b a
    cbv
  have runs : (isSubtype a.1 b.1 b.2).1 = true ∧ (isSubtype a.1 b.1 b.2).2.depthError = none := by
    subst b a
    cbv
  have plain : ((plain (b.2.limits.maxDepth - b.2.depth) [] a.1 b.1).run b.2).1 = some true := by
    subst b a
    cbv
  have reachable : b.2.Reachable :=
    reachable_recursiveRecord (reachable_recursiveRecord (.start {}) "A") "B"
  have plainly : ComparesPlainly b.2 a.1 b.1 := ⟨true, _, Prod.ext plain rfl⟩
  exact ⟨reachable, plainly, runs.2,
    (reachable.isSubtype_iff below.1 below.2 plainly runs.2).1 runs.1⟩

/-- **Bounds are not compared**: of two functions with type parameters one is a subtype of the other
though it can be called with less. -/
theorem bounds_not_compared :
    let generic (name : String) (bound : TypeId) : TableM TypeId := do
      let param ← intern (.param { name, scope := 0, bound })
      functionOf { typeParams := [param], params := [{ name := "x", type := param }], result := .void }
    fresh? (do return (← isSubtype (← generic "T" .string) (← generic "U" .number),
      ← isSubtype .number .string)) = some (true, false) := by
  cbv

end GradualTyping
