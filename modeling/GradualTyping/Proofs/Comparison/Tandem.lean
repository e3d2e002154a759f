/-
# Two runs of a rule in tandem

The rules of comparison can be run in any monad over a table, with any answers to
their questions.  Two runs of one rule, in two monads and with two ways to answer,
make the same steps.  A relation between the two that every connective of the
rules respects, between a question and its counterpart and through every step on
the table, therefore holds between two runs of every rule (`Tandem.clause`).

The connectives are few: conjunction, the disjunction of questions, and the step
on the table whose answer the rest of the rule uses.
-/

import GradualTyping.Proofs.Sound.Inference

namespace GradualTyping

open TypeTable List

namespace Subtyping

/-- Tables whose rules are the same on the types of the first. -/
structure Peers (t t' : TypeTable) : Prop where
  nodes : AgreeBelow t.size t t'
  aliases : t'.aliases = t.aliases

theorem Peers.refl {t : TypeTable} (s : t.Sound) : Peers t t := ⟨s.agreeBelow (.refl t), rfl⟩

theorem Peers.variances? {t t' : TypeTable} (p : Peers t t') {params : List TypeId}
    (h : t.Has params) : variances? t' params = variances? t params := by
  unfold Subtyping.variances?
  induction params with
  | nil => rfl
  | cons q params ih =>
    simp only [mapM_cons, p.nodes.resolve (h q (.head _)), ih fun x hx => h x (.tail _ hx)]

theorem anyM_map {m : Type → Type} [Monad m] {α β : Type} (xs : List α) (g : α → β)
    (q : β → m Bool) : (xs.map g).anyM q = xs.anyM fun x => q (g x) := by
  induction xs with
  | nil => rfl
  | cons x xs ih => simp only [map_cons, List.anyM, ih]

theorem anyM_concat {m : Type → Type} [Monad m] [LawfulMonad m] {α : Type} (xs : List α) (y : α)
    (q : α → m Bool) :
    (xs ++ [y]).anyM q = (do if ← xs.anyM q then return true else q y) := by
  induction xs with
  | nil =>
    rw [nil_append, List.anyM, List.anyM, pure_bind]
    refine Eq.trans (congrArg (q y >>= ·) (funext fun b => ?_)) (bind_pure (q y))
    cases b <;> rfl
  | cons x xs ih =>
    rw [cons_append, List.anyM, List.anyM, ih, bind_assoc]
    refine congrArg (q x >>= ·) (funext fun b => ?_)
    cases b with
    | true =>
      dsimp only
      rw [pure_bind, if_pos rfl]
    | false => rfl

section Tandem

variable {m m' : Type → Type} [Monad m] [MonadLiftT TableM m] [Monad m'] [MonadLiftT TableM m']

/-- A relation between two runs of a rule that its connectives respect.  `Joint`
relates the steps on the table that the two runs make, and `Admits` are the source
signatures that the rule for functions meets. -/
structure Tandem (ops ops' : Operations) (ask : Ask m) (ask' : Ask m') (Admits : Signature → Prop)
    (Joint : {α : Type} → [Bounded α] → TypeTable → TableM α → TableM α → Prop)
    (Rel : TypeTable → m Bool → m' Bool → Prop) : Prop where
  const {t : TypeTable} : t.Sound → ∀ b, Rel t (pure b) (pure b)
  atom {t : TypeTable} {a b : TypeId} : t.Sound → Below t.size a → Below t.size b →
    Rel t (ask a b) (ask' a b)
  and {t : TypeTable} {c d : m Bool} {c' d' : m' Bool} : Rel t c c' →
    (∀ t1, t1.Sound → t.Grows t1 → Rel t1 d d') →
    Rel t (do if ← c then d else return false) (do if ← c' then d' else return false)
  /-- Conjunction that runs its second part in any case. -/
  both {t : TypeTable} {c d : m Bool} {c' d' : m' Bool} : Rel t c c' →
    (∀ t1, t1.Sound → t.Grows t1 → Rel t1 d d') →
    Rel t (do let x ← c; let y ← d; return x && y) (do let x ← c'; let y ← d'; return x && y)
  any {t : TypeTable} {ps : List (TypeId × TypeId)} : t.Sound → Below t.size ps →
    Rel t (ps.anyM fun p => ask p.1 p.2) (ps.anyM fun p => ask' p.1 p.2)
  read {t : TypeTable} {α : Type} {c : TableM α} {k : α → m Bool} {k' : α → m' Bool} : t.Sound →
    (∀ t, (c t).2 = t) → (∀ t', Peers t t' → Rel t (k (c t).1) (k' (c t').1)) →
    Rel t ((liftM c : m α) >>= k) ((liftM c : m' α) >>= k')
  run {t : TypeTable} {α : Type} [Bounded α] {c c' : TableM α} {k : α → m Bool} {k' : α → m' Bool} :
    Joint t c c' →
    (∀ t1 a, t1.Sound → t.Grows t1 → Below t1.size a → Rel t1 (k a) (k' a)) →
    Rel t ((liftM c : m α) >>= k) ((liftM c' : m' α) >>= k')
  reduced? {t : TypeTable} {id : TypeId} : t.Sound → Below t.size id →
    Joint t (reduced? ops id) (reduced? ops' id)
  member? {t : TypeTable} {id : TypeId} {name : String} : t.Sound → Below t.size id →
    Joint t (Members.member? ops id name) (Members.member? ops' id name)
  anyKey {t : TypeTable} : t.Sound → Joint t Reduction.anyKey Reduction.anyKey
  adapt {t : TypeTable} {f g : Signature} : t.Sound → Below t.size f → Below t.size g → Admits f →
    Joint t (adapt ops f g) (adapt ops' f g)

namespace Tandem

variable {ops ops' : Operations} {ask : Ask m} {ask' : Ask m'} {Admits : Signature → Prop}
variable {a b sup : TypeId}
  {Joint : {α : Type} → [Bounded α] → TypeTable → TableM α → TableM α → Prop}
  {Rel : TypeTable → m Bool → m' Bool → Prop} {t : TypeTable}
  (T : Tandem ops ops' ask ask' Admits Joint Rel)

include T

/-! ### Derived connectives -/

theorem allM {xs : List α} {f : α → m Bool} {f' : α → m' Bool} (s : t.Sound)
    (h : ∀ x ∈ xs, ∀ t1, t1.Sound → t.Grows t1 → Rel t1 (f x) (f' x)) :
    Rel t (xs.allM f) (xs.allM f') := by
  induction xs generalizing t with
  | nil => exact T.const s true
  | cons x xs ih =>
    have unroll : ∀ {n : Type → Type} [Monad n] (f : α → n Bool),
        (x :: xs).allM f = do if ← f x then xs.allM f else return false := by
      intro n _ f
      refine congrArg (f x >>= ·) (funext fun b => ?_)
      cases b <;> rfl
    rw [unroll, unroll]
    refine T.and (h x (.head _) t s (.refl t)) fun t1 s1 r1 => ?_
    exact ih s1 fun y hy t2 s2 r2 => h y (.tail _ hy) t2 s2 (r1.trans r2)

theorem anyOf {ids : List TypeId} {f : TypeId → TypeId × TypeId} (s : t.Sound)
    (h : ∀ id ∈ ids, t.Has (f id)) :
    Rel t (ids.anyM fun id => ask (f id).1 (f id).2)
      (ids.anyM fun id => ask' (f id).1 (f id).2) := by
  have hps : t.Has (ids.map f) := by
    intro p hp
    obtain ⟨id, hid, rfl⟩ := mem_map.1 hp
    exact h id hid
  have := T.any s hps
  rwa [anyM_map, anyM_map] at this

/-- One of several questions, or else a last one. -/
theorem anyOr [LawfulMonad m] [LawfulMonad m'] {ids : List TypeId} {f : TypeId → TypeId × TypeId}
    (s : t.Sound) (h : ∀ id ∈ ids, t.Has (f id)) (ha : t.Has a)
    (hb : t.Has b) :
    Rel t (do if ← ids.anyM (fun id => ask (f id).1 (f id).2) then return true else ask a b)
      (do if ← ids.anyM (fun id => ask' (f id).1 (f id).2) then return true else ask' a b) := by
  have hps : t.Has (ids.map f ++ [(a, b)]) := by
    intro p hp
    rcases mem_append.1 hp with hp | hp
    · obtain ⟨id, hid, rfl⟩ := mem_map.1 hp
      exact h id hid
    · obtain rfl := mem_singleton.1 hp
      exact ⟨ha, hb⟩
  have := T.any s hps
  rwa [anyM_concat, anyM_concat, anyM_map, anyM_map] at this

theorem all {xs : List TypeId} (s : t.Sound) (hxs : t.Has xs)
    (hsup : t.Has sup) : Rel t (xs.allM fun x => ask x sup) (xs.allM fun x => ask' x sup) :=
  T.allM s fun x hx _ s1 r1 => T.atom s1 (r1 (hxs x hx)) (r1 hsup)

/-! ### The rules -/

theorem bothWays (s : t.Sound) (ha : t.Has a) (hb : t.Has b) :
    Rel t (bothWays ask a b) (bothWays ask' a b) := by
  unfold Subtyping.bothWays
  split
  · exact T.const s true
  · exact T.and (T.atom s ha hb) fun _ s1 r1 => T.atom s1 (r1 hb) (r1 ha)

theorem compareArgument (s : t.Sound) (v : Variance) (ha : t.Has a)
    (hb : t.Has b) : Rel t (compareArgument ask v a b) (compareArgument ask' v a b) := by
  cases v with
  | covariant => exact T.atom s ha hb
  | contravariant => exact T.atom s hb ha
  | invariant => exact T.bothWays s ha hb

/-- The comparison by variance decides, or leaves the pair to the rest of the clause. -/
theorem byVariance [LawfulMonad m] [LawfulMonad m'] {subTy supTy : Ty} {k : m Bool} {k' : m' Bool}
    (s : t.Sound) (hsub : t.Has subTy) (hsup : t.Has supTy) (hk : Rel t k k') :
    Rel t (do match ← byVariance ask subTy supTy with
        | some answer => return answer
        | none => k)
      (do match ← byVariance ask' subTy supTy with
        | some answer => return answer
        | none => k') := by
  have skip : ∀ {n : Type → Type} [Monad n] [LawfulMonad n] (k : n Bool),
      (do match ← (pure none : n (Option Bool)) with
        | some answer => return answer
        | none => k) = k := fun k => pure_bind none _
  have decide : ∀ {n : Type → Type} [Monad n] [LawfulMonad n] (c k : n Bool),
      (do match ← some <$> c with
        | some answer => return answer
        | none => k) = c := by
    intro n _ _ c k
    rw [bind_map_left]
    exact bind_pure c
  unfold Subtyping.byVariance
  split
  · next a xs b ys =>
    split
    · unfold compareReferences
      split
      · rwa [skip, skip]
      split
      · rw [pure_bind, pure_bind]
        exact T.const s true
      simp only [bind_assoc]
      refine T.read s (fun _ => rfl) fun t' p => ?_
      have halias : t'.alias? a = t.alias? a := congrArg (·[a]?) p.aliases
      simp only [show ∀ t, (get : TableM TypeTable) t = (t, t) from fun _ => rfl, halias]
      split
      · rwa [skip, skip]
      · next definition hdef =>
        rw [p.variances? (s.aliases hdef).1]
        split
        · rwa [skip, skip]
        split
        · rwa [skip, skip]
        · rw [decide, decide]
          refine T.allM s fun q hq t1 s1 r1 => ?_
          have hzip := of_mem_zip (of_mem_zip hq).2
          exact T.compareArgument s1 _ (r1 (hsub _ hzip.1)) (r1 (hsup _ hzip.2))
    · rwa [skip, skip]
  · rwa [skip, skip]

/-! ### Objects and tuples -/

section

variable (s : t.Sound)
variable {sub : ObjectShape} {f g : Signature}
include s

theorem fieldFits {want : Property} (covariant : Bool) (hsub : t.Has sub) (hwant : t.Has want) :
    Rel t (fieldFits ask covariant sub want) (fieldFits ask' covariant sub want) := by
  unfold Subtyping.fieldFits
  split
  · next has hhas =>
    have hhas := below_property? hsub has hhas
    split
    · exact T.const s false
    split
    · exact T.atom s hhas hwant
    · exact T.bothWays s hhas hwant
  · exact T.const s _

theorem indexFits {index : TypeId} (hsub : t.Has sub) (hi : t.Has index) :
    Rel t (indexFits ask sub index) (indexFits ask' sub index) := by
  have fields : Rel t (sub.properties.allM fun p => ask p.type index)
      (sub.properties.allM fun p => ask' p.type index) :=
    T.allM s fun p hp _ s1 r1 => T.atom s1 (r1 (hsub.1 p hp)) (r1 hi)
  unfold Subtyping.indexFits
  cases hindex : sub.index with
  | none =>
    refine T.both fields fun t1 s1 _ => ?_
    exact T.const s1 true
  | some i =>
    exact T.both fields fun _ s1 r1 => T.atom s1 (r1 (hsub.2 i hindex)) (r1 hi)

theorem objects {sup : ObjectShape} (hsub : t.Has sub) (hsup : t.Has sup) :
    Rel t (objects ask sub sup) (objects ask' sub sup) := by
  unfold Subtyping.objects
  refine T.read s (fun _ => rfl) fun t' p => ?_
  rw [show ((getLimits : TableM Limits) t').1 = ((getLimits : TableM Limits) t).1
    from p.nodes.limits]
  refine T.and (T.allM s fun want hwant t1 s1 r1 => ?_) fun t1 s1 r1 => ?_
  · exact T.fieldFits s1 _ (r1 hsub) (r1 (hsup.1 want hwant))
  · split
    · next index hindex => exact T.indexFits s1 (r1 hsub) (r1 (hsup.2 index hindex))
    · exact T.const s1 true

theorem members {sub : TypeId} {sup : ObjectShape} (hsub : t.Has sub)
    (hsup : t.Has sup) : Rel t (members ops ask sub sup) (members ops' ask' sub sup) := by
  unfold Subtyping.members
  refine T.read s (fun _ => rfl) fun t' p => ?_
  rw [show ((resolve sub : TableM Ty) t').1 = ((resolve sub : TableM Ty) t).1 from
    p.nodes.resolve hsub]
  split
  · exact T.const s false
  · refine T.allM s fun p hp t1 s1 r1 => ?_
    refine T.run (T.member? s1 (r1 hsub)) fun t2 member s2 r2 hm => ?_
    split
    · exact T.atom s2 (below_some.1 hm) ((r1.trans r2) (hsup.1 p hp))
    · exact T.const s2 _

theorem tuples {sub sup : TupleShape} (hsub : t.Has sub)
    (hsup : t.Has sup) : Rel t (tuples ask sub sup) (tuples ask' sub sup) := by
  unfold Subtyping.tuples
  split
  · exact T.const s false
  refine T.and (T.allM s fun p hp t1 s1 r1 => ?_) fun t1 s1 r1 => ?_
  · have hwant := r1 (hsup.1 p.2 (of_mem_zip hp).2)
    dsimp only
    split
    · next has hhas => exact T.atom s1 (r1 (below_at? hsub _ has hhas)) hwant
    · exact T.const s1 _
  refine T.and (T.allM s1 fun extra hextra t2 s2 r2 => ?_) fun t2 s2 r2 => ?_
  · have r2' := r1.trans r2
    split
    · next rest hrest =>
      exact T.atom s2 (r2' (hsub.1.drop _ extra hextra)) (r2' (hsup.2 rest hrest))
    · exact T.const s2 false
  · have r2' := r1.trans r2
    split
    · next a b ha hb => exact T.atom s2 (r2' (hsub.2 a ha)) (r2' (hsup.2 b hb))
    · exact T.const s2 false
    · exact T.const s2 true

/-! ### Functions -/

theorem paramFits (hf : t.Has f) (hg : t.Has g)
    (i : Nat) : Rel t (paramFits ask f g i) (paramFits ask' f g i) := by
  unfold Subtyping.paramFits
  split
  · next has want hhas hwant =>
    exact T.atom s (below_paramAt? hg i want hwant) (below_paramAt? hf i has hhas)
  · exact T.const s true
  · exact T.const s _

theorem predicates (hf : t.Has f) (hg : t.Has g) :
    Rel t (predicates ask f g) (predicates ask' f g) := by
  unfold Subtyping.predicates
  split
  · exact T.const s true
  · next p q hp hq =>
    split
    · exact T.const s false
    · exact T.atom s (hf.2.2.2.2 p hp) (hg.2.2.2.2 q hq)
  · exact T.const s false

theorem functions (hf : t.Has f) (hg : t.Has g)
    (admitted : Admits f) : Rel t (functions ops ask f g) (functions ops' ask' f g) := by
  unfold Subtyping.functions
  split
  · exact T.const s false
  refine T.run (T.adapt s hf hg admitted) fun t1 f s1 r1 hf => ?_
  have hg := r1 hg
  split
  · exact T.const s1 false
  refine T.and (T.allM s1 fun i _ t2 s2 r2 => T.paramFits s2 (r2 hf) (r2 hg) i)
    fun t2 s2 r2 => ?_
  have hf := r2 hf
  have hg := r2 hg
  -- The rest of the rule, after the open ends are compared.
  have finish : ∀ t3, t3.Sound → t2.Grows t3 →
      Rel t3 (do
          if ← Subtyping.predicates ask f g then
            if g.result = .void then return true else ask f.result g.result
          else return false)
        (do
          if ← Subtyping.predicates ask' f g then
            if g.result = .void then return true else ask' f.result g.result
          else return false) := by
    intro t3 s3 r3
    refine T.and (T.predicates s3 (r3 hf) (r3 hg)) fun t4 s4 r4 => ?_
    have r4' := r3.trans r4
    split
    · exact T.const s4 true
    · exact T.atom s4 (r4' hf.2.2.2.1) (r4' hg.2.2.2.1)
  dsimp only
  split
  · next has want hhas hwant =>
    exact T.and (T.atom s2 (hg.2.2.1 want hwant) (hf.2.2.1 has hhas)) finish
  · exact T.and (T.const s2 true) finish

end

/-! ### The clauses -/

theorem structural [LawfulMonad m] [LawfulMonad m'] {sub : TypeId} {subTy supTy : Ty}
    (s : t.Sound) (hsub : t.Has sub) (hsup : t.Has sup) (hsubTy : t.Has subTy)
    (hsupTy : t.Has supTy)
    (admitted : ∀ f g, subTy = .function f → supTy = .function g → Admits f) :
    Rel t (structural ops ask sub sup subTy supTy) (structural ops' ask' sub sup subTy supTy) := by
  have string := s.below_primitive .string
  unfold Subtyping.structural
  split
  · exact T.all s hsubTy hsup
  · next p =>
    have hbound : t.Has (p.bound.getD .unknown) := hsubTy.1.getD s.below_unknown
    dsimp only
    split
    · next ms => exact T.anyOr (f := (sub, ·)) s (fun id hid => ⟨hsub, hsupTy id hid⟩) hbound hsup
    · rw [pure_bind, pure_bind]
      exact T.atom s hbound hsup
  · exact T.anyOf (f := (·, sup)) s fun id hid => ⟨hsubTy id hid, hsup⟩
  · exact T.anyOf (f := (sub, ·)) s fun id hid => ⟨hsub, hsupTy id hid⟩
  · exact T.allM s fun id hid _ s1 r1 => T.atom s1 (r1 hsub) (r1 (hsupTy id hid))
  · exact T.and (T.atom s hsubTy.2.2.1 hsup) fun _ s1 r1 =>
      T.atom s1 (r1 hsubTy.2.2.2) (r1 hsup)
  · exact T.run (T.anyKey s) fun _ _ s1 r1 hk => T.atom s1 hk (r1 hsup)
  · exact T.atom s string hsup
  · exact T.atom s string hsup
  · exact T.const s _
  · exact T.const s _
  · exact T.objects s hsubTy hsupTy
  iterate 4 exact T.members s hsub hsupTy
  · exact T.const s _
  · exact T.atom s hsubTy hsupTy
  · next shape a =>
    refine T.and (T.allM s fun e he t1 s1 r1 => ?_) fun t1 s1 r1 => ?_
    · exact T.atom s1 (r1.below (hsubTy.1 e he)) (r1.below (a := a) hsupTy)
    · unfold askOption
      split
      · next rest hrest =>
        exact T.atom s1 (r1.below (hsubTy.2 rest hrest)) (r1.below (a := a) hsupTy)
      · exact T.const s1 true
  · exact T.tuples s hsubTy hsupTy
  · split
    · next r hr =>
      split
      · exact T.atom s hsubTy (hsupTy.2 r hr)
      · exact T.const s false
    · exact T.const s false
  · exact T.functions s hsubTy hsupTy (admitted _ _ rfl rfl)
  · exact T.atom s hsubTy hsupTy
  · exact T.const s false

/-- **The relation holds between two runs of every clause.** -/
theorem clause [LawfulMonad m] [LawfulMonad m'] {sub : TypeId} (s : t.Sound)
    (hsub : t.Has sub) (hsup : t.Has sup)
    (admitted : ∀ f g, t.resolve sub = .function f → t.resolve sup = .function g → Admits f) :
    Rel t (clause ops ask sub sup) (clause ops' ask' sub sup) := by
  have hsubTy := s.below_resolve sub
  have hsupTy := s.below_resolve sup
  unfold Subtyping.clause
  refine T.read s (fun _ => rfl) fun t' p => T.read s (fun _ => rfl) fun t'' q => ?_
  rw [show ((resolve sub : TableM Ty) t').1 = t.resolve sub from p.nodes.resolve hsub,
    show ((resolve sup : TableM Ty) t'').1 = t.resolve sup from q.nodes.resolve hsup]
  refine T.byVariance s hsubTy hsupTy ?_
  refine T.run (T.reduced? s hsub) fun t1 sub' s1 r1 hsub' => ?_
  split
  · exact T.atom s1 (below_some.1 hsub') (r1 hsup)
  refine T.run (T.reduced? s1 (r1 hsup)) fun t2 sup' s2 r2 hsup' => ?_
  have r2' := r1.trans r2
  split
  · exact T.atom s2 (r2' hsub) (below_some.1 hsup')
  · exact T.structural s2 (r2' hsub) (r2' hsup) (r2' hsubTy) (r2' hsupTy)
      admitted

end Tandem

end Tandem

end Subtyping

end GradualTyping
