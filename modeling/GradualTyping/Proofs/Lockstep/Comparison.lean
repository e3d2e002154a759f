/-
# Inference and comparison in lockstep

The walk of an inference, its solution, and the rules of comparison.  The rules are
written for any monad over a table, so here the two runs of a rule may be in two
monads, with two ways to answer its questions.

`Lockstep.Bracket` is what the recursion guard asks of a relation: that it holds
around the guard when another relation holds inside.  Then the guarded operations
are in lockstep as soon as those one level deeper are.
-/

import GradualTyping.Proofs.Lockstep.Reduction
import GradualTyping.Proofs.Sound.Substitution

namespace GradualTyping

open Reduction Substitution

namespace Lockstep

/-! ### Inference -/

namespace Joined

variable {L : Lockstep} {ops ops' : Operations} (J : L.Joined ops ops')

include J

omit J in
theorem splitNaked {members : List TypeId} :
    (L.state _).Rel (Inference.splitNaked members) (Inference.splitNaked members) :=
  (L.state _).bind L.getThe fun _ => (L.state _).pure _

theorem intoUnion (members : List TypeId) (arg : TypeId) (contravariant : Bool) :
    (L.state _).Rel (Inference.intoUnion ops members arg contravariant)
      (Inference.intoUnion ops' members arg contravariant) := by
  refine (L.state _).bind splitNaked fun p => ?_
  refine (L.state _).bind ((L.state _).lift (L.reads _ fun _ _ _ => rfl)) fun argMembers => ?_
  split
  · exact (L.state _).forM fun a _ => (L.state _).forM fun f _ => J.inferFrom f a contravariant
  · refine (L.state _).bind ((L.state _).filterM fun a _ => ?_) fun unmatched => ?_
    · refine (L.state _).bind ((L.state _).lift ?_) fun fits => (L.state _).pure _
      exact L.self.anyM fun f _ => J.subtype a f
    · split
      · exact (L.state _).pure _
      · exact (L.state _).bind ((L.state _).lift (L.unionOf _)) fun rest => L.modifyThe _

theorem intoRow (members : List TypeId) (arg : TypeId) (contravariant : Bool) :
    (L.state _).Rel (Inference.intoRow ops members arg contravariant)
      (Inference.intoRow ops' members arg contravariant) := by
  have remainder : ∀ claimed, L.Rel (Inference.remainder claimed arg)
      (Inference.remainder claimed arg) := by
    intro claimed
    refine L.bind (L.resolve arg) fun ty => ?_
    split
    · exact L.objectOf
    · exact L.pure arg
  refine (L.state _).bind splitNaked fun p => ?_
  refine (L.state _).bind ((L.state _).foldlM (fun claimed f _ => ?_) []) fun claimed => ?_
  · refine (L.state _).bind (J.inferFrom f arg contravariant) fun _ => ?_
    exact (L.state _).bind ((L.state _).lift J.keyNames) fun names => (L.state _).pure _
  · split
    · exact (L.state _).pure _
    · exact (L.state _).bind ((L.state _).lift (remainder claimed)) fun rest => L.modifyThe _

theorem intoObject {param arg : ObjectShape} (contravariant : Bool) :
    (L.state _).Rel (Inference.intoObject ops param arg contravariant)
      (Inference.intoObject ops' param arg contravariant) := by
  refine (L.state _).bind ((L.state _).forM fun p _ => ?_) fun _ => ?_
  · split
    · exact J.inferFrom _ _ _
    · exact (L.state _).pure _
  · split
    · refine (L.state _).bind ((L.state _).forM fun p _ => J.inferFrom _ _ _) fun _ => ?_
      split
      · exact J.inferFrom _ _ _
      · exact (L.state _).pure _
    · exact (L.state _).pure _

theorem intoRest {contravariant : Bool} {p a : Option TypeId} :
    (L.state _).Rel (Inference.intoRest ops contravariant p a)
      (Inference.intoRest ops' contravariant p a) := by
  unfold Inference.intoRest
  split
  · exact J.inferFrom _ _ _
  · exact (L.state _).pure _

theorem intoFunction {param arg : Signature} (contravariant : Bool) :
    (L.state _).Rel (Inference.intoFunction ops param arg contravariant)
      (Inference.intoFunction ops' param arg contravariant) := by
  refine (L.state _).bind ((L.state _).forM fun p _ => J.inferFrom _ _ _) fun _ => ?_
  exact (L.state _).bind J.intoRest fun _ => J.inferFrom _ _ _

theorem collect {param arg : TypeId} (contravariant : Bool) {paramTy argTy : Ty} :
    (L.state _).Rel (Inference.collect ops param arg contravariant paramTy argTy)
      (Inference.collect ops' param arg contravariant paramTy argTy) := by
  have expand : (L.state _).Rel (Inference.collect.expandParam ops param arg contravariant)
      (Inference.collect.expandParam ops' param arg contravariant) := by
    refine (L.state _).bind ((L.state _).lift (J.evaluate param)) fun expanded => ?_
    split
    · exact (L.state _).pure _
    · exact J.inferFrom _ _ _
  unfold Inference.collect
  split
  · exact J.intoUnion _ _ _
  · exact J.intoRow _ _ _
  · split
    · exact (L.state _).forM fun p _ => J.inferFrom _ _ _
    · exact expand
  · exact expand
  · exact (L.state _).forM fun m _ => J.inferFrom _ _ _
  · exact J.intoObject _
  · exact J.inferFrom _ _ _
  · exact (L.state _).forM fun e _ => J.inferFrom _ _ _
  · exact (L.state _).bind ((L.state _).forM fun p _ => J.inferFrom _ _ _) fun _ =>
      J.intoRest
  · exact J.intoFunction _
  · exact J.inferFrom _ _ _
  · exact J.inferFrom _ _ _
  · exact (L.state _).pure _

theorem visit (param arg : TypeId) (contravariant : Bool) :
    (L.state _).Rel (Inference.visit ops param arg contravariant)
      (Inference.visit ops' param arg contravariant) := by
  refine (L.state _).bind ((L.state _).lift (L.resolve param)) fun paramTy => ?_
  split
  · exact L.modifyThe _
  · refine (L.state _).bind L.getThe fun i => (L.state _).get (fun _ _ same => ?_) fun t => ?_
    · simp only [Inference.mentions, same.freeParams]
      rfl
    split
    · refine (L.state _).bind ((L.state _).lift (J.evaluate arg)) fun arg => ?_
      refine (L.state _).bind ((L.state _).lift (L.resolve arg)) fun argTy => ?_
      exact J.collect _
    · exact (L.state _).pure _

omit J in
theorem start (params : List TypeId) : L.Rel (Inference.start params) (Inference.start params) := by
  refine L.bind (L.self.mapM fun p _ => ?_) fun vars => L.pure _
  exact L.bind (L.resolve p) fun node => L.bind L.freshVariable fun var => L.pure _

theorem infer (param arg : TypeId) :
    (L.state _).Rel (Inference.infer ops param arg) (Inference.infer ops' param arg) := by
  refine (L.state _).bind (J.inferFrom param arg false) fun _ => ?_
  refine (L.state _).bind ((L.state _).lift (J.evaluate param)) fun param => ?_
  refine (L.state _).bind ((L.state _).lift (J.evaluate arg)) fun arg => ?_
  refine (L.state _).get (fun _ _ _ => rfl) fun t => ?_
  split
  · dsimp only
    split
    · exact (L.state _).pure _
    · refine (L.state _).bind ((L.state _).lift L.objectOf) fun fields => ?_
      exact (L.state _).bind ((L.state _).lift L.freshVariable) fun var => L.modifyThe _
  · exact (L.state _).pure _

theorem keepsLiterals (bound : Option TypeId) :
    L.Rel (Inference.keepsLiterals ops bound) (Inference.keepsLiterals ops' bound) := by
  cases bound with
  | none => exact L.pure false
  | some bound =>
    refine L.bind (L.resolve bound) fun ty => ?_
    split
    · exact L.pure true
    · exact L.bind (J.evaluate bound) fun evaluated => L.get (fun _ _ _ => rfl) fun t => L.pure _

theorem joinCandidates (v : InferenceVar) :
    L.Rel (Inference.joinCandidates ops v) (Inference.joinCandidates ops' v) := by
  unfold Inference.joinCandidates
  split
  · refine L.bind (L.unionOf _) fun joined => L.bind (J.keepsLiterals _) fun keeps => ?_
    split
    · exact L.pure _
    · exact L.self.map some L.widenLiterals
  split
  · exact L.self.map some L.intersectionOf
  · exact L.pure none

theorem partialSolution {i : Inference} :
    L.Rel (i.partialSolution ops) (i.partialSolution ops') := by
  refine L.self.foldlM (fun s v _ => ?_) _
  refine L.bind (J.joinCandidates v) fun type => ?_
  split
  · exact L.pure _
  · exact L.pure _

theorem solveVar (state : Inference.Solving) (v : InferenceVar) :
    L.Rel (Inference.solveVar ops state v) (Inference.solveVar ops' state v) := by
  have fallback : ∀ s, L.Rel (Inference.fallbackSolution ops s v)
      (Inference.fallbackSolution ops' s v) := by
    intro s
    unfold Inference.fallbackSolution
    split
    · exact J.substitute
    · exact L.pure _
  refine L.bind (J.joinCandidates v) fun type => ?_
  cases type
  case' none => refine L.bind (fallback _) fun inferred => ?_
  case' some type => refine L.bind (L.pure type) fun inferred => ?_
  -- From here on the solution of the variable is known.
  all_goals
    dsimp only
    split
    · exact L.pure _
    · refine L.bind J.substitute fun bound => L.bind (J.subtype _ _) fun fits => ?_
      split
      · exact L.pure _
      · exact L.pure _

theorem solveAll {i : Inference} : L.Rel (i.solveAll ops) (i.solveAll ops') :=
  L.self.foldlM (fun state v _ => J.solveVar state v) _

theorem solve {i : Inference} : L.Rel (i.solve ops) (i.solve ops') :=
  L.bind J.solveAll fun _ => L.pure _

/-! ### Comparison -/

theorem reduced? {id : TypeId} :
    L.Rel (Subtyping.reduced? ops id) (Subtyping.reduced? ops' id) := by
  refine L.get (fun _ _ _ => rfl) fun t => ?_
  split
  · exact L.bind (J.evaluate id) fun evaluated => L.pure _
  · exact L.pure none

theorem adapt (f g : Signature) : L.Rel (Subtyping.adapt ops f g) (Subtyping.adapt ops' f g) := by
  have instantiate : ∀ s, L.Rel (Subtyping.instantiate ops f s) (Subtyping.instantiate ops' f s) :=
    fun s => L.bind (L.intern _) fun id => L.bind J.substitute fun instantiated =>
      L.bind (L.resolve instantiated) fun ty => L.pure _
  unfold Subtyping.adapt
  split
  · exact L.pure f
  split
  · exact instantiate _
  · refine L.bind (start _) fun state => ?_
    refine L.bind ((L.state _).forM (fun p _ => J.infer _ _) state) fun p => ?_
    exact L.bind J.solveAll fun solved => instantiate _

end Joined

section Rules

open Subtyping

variable {L : Lockstep} {m m' : Type → Type} [Monad m] [MonadLiftT TableM m] [LawfulMonad m]
  [Monad m'] [MonadLiftT TableM m'] [LawfulMonad m'] (O : L.Over m m') {ops ops' : Operations}
  {ask : Ask m} {ask' : Ask m'} (h : ∀ a b, O.Rel (ask a b) (ask' a b))

include h

omit [LawfulMonad m] [LawfulMonad m'] in
theorem Over.bothWays (a b : TypeId) : O.Rel (bothWays ask a b) (bothWays ask' a b) := by
  unfold Subtyping.bothWays
  split
  · exact O.pure true
  · refine O.bind (h a b) fun holds => ?_
    split
    · exact h b a
    · exact O.pure false

theorem Over.byVariance {subTy supTy : Ty} :
    O.Rel (byVariance ask subTy supTy) (byVariance ask' subTy supTy) := by
  have compareArgument : ∀ v x y, O.Rel (compareArgument ask v x y)
      (compareArgument ask' v x y) := by
    intro v x y
    cases v with
    | covariant => exact h x y
    | contravariant => exact h y x
    | invariant => exact O.bothWays h x y
  unfold Subtyping.byVariance
  split
  · split
    · unfold compareReferences
      split
      · exact O.pure none
      split
      · exact O.pure _
      refine O.get (fun _ _ _ => rfl) fun t => ?_
      split
      · exact O.pure none
      split
      · exact O.pure none
      split
      · exact O.pure none
      · exact O.map some (O.allM fun p _ => compareArgument p.1 p.2.1 p.2.2)
    · exact O.pure none
  · exact O.pure none

omit [LawfulMonad m] [LawfulMonad m'] in
theorem Over.objects {sub sup : ObjectShape} :
    O.Rel (objects ask sub sup) (objects ask' sub sup) := by
  refine O.look TypeTable.limits (fun _ _ _ => rfl) fun limits => O.bind (O.allM fun want _ => ?_) fun fits => ?_
  · unfold fieldFits
    split
    · split
      · exact O.pure false
      split
      · exact h _ _
      · exact O.bothWays h _ _
    · exact O.pure _
  split
  · split
    · unfold indexFits
      refine O.bind (O.allM fun p _ => h p.type _) fun fields => ?_
      dsimp only
      split
      · exact O.bind (h _ _) fun rest => O.pure _
      · exact O.bind (O.pure true) fun rest => O.pure _
    · exact O.pure true
  · exact O.pure false

omit [LawfulMonad m] [LawfulMonad m'] in
theorem Over.members (J : L.Joined ops ops') (sub : TypeId) (sup : ObjectShape) :
    O.Rel (members ops ask sub sup) (members ops' ask' sub sup) := by
  refine O.bind (O.lift (L.resolve sub)) fun ty => ?_
  split
  · exact O.pure false
  · refine O.allM fun p _ => O.bind (O.lift J.member?) fun member => ?_
    split
    · exact h _ _
    · exact O.pure _

omit [LawfulMonad m] [LawfulMonad m'] in
theorem Over.tuples (sub sup : TupleShape) : O.Rel (tuples ask sub sup) (tuples ask' sub sup) := by
  unfold Subtyping.tuples
  split
  · exact O.pure false
  refine O.bind (O.allM fun p _ => ?_) fun fits => ?_
  · dsimp only
    split
    · exact h _ _
    · exact O.pure _
  split
  · refine O.bind (O.allM fun extra _ => ?_) fun fits => ?_
    · split
      · exact h _ _
      · exact O.pure false
    split
    · split
      · exact h _ _
      · exact O.pure false
      · exact O.pure true
    · exact O.pure false
  · exact O.pure false

omit [LawfulMonad m] [LawfulMonad m'] in
theorem Over.functions (J : L.Joined ops ops') {f g : Signature} :
    O.Rel (functions ops ask f g) (functions ops' ask' f g) := by
  have paramFits : ∀ f i, O.Rel (paramFits ask f g i) (paramFits ask' f g i) := by
    intro f i
    unfold Subtyping.paramFits
    split
    · exact h _ _
    · exact O.pure true
    · exact O.pure _
  have predicates : ∀ f, O.Rel (predicates ask f g) (predicates ask' f g) := by
    intro f
    unfold Subtyping.predicates
    split
    · exact O.pure true
    · split
      · exact O.pure false
      · exact h _ _
    · exact O.pure false
  unfold Subtyping.functions
  split
  · exact O.pure false
  refine O.bind (O.lift (J.adapt f g)) fun f => ?_
  split
  · exact O.pure false
  refine O.bind (O.allM fun i _ => paramFits f i) fun fits => ?_
  split
  · have finish : ∀ rests : Bool, O.Rel
        (do
          if rests then
            if ← Subtyping.predicates ask f g then
              if g.result = .void then return true else ask f.result g.result
            else return false
          else return false)
        (do
          if rests then
            if ← Subtyping.predicates ask' f g then
              if g.result = .void then return true else ask' f.result g.result
            else return false
          else return false) := by
      intro rests
      split
      · refine O.bind (predicates f) fun fits => ?_
        split
        · split
          · exact O.pure true
          · exact h _ _
        · exact O.pure false
      · exact O.pure false
    dsimp only
    split
    · exact O.bind (h _ _) finish
    · exact O.bind (O.pure true) finish
  · exact O.pure false

omit [LawfulMonad m] [LawfulMonad m'] in
theorem Over.structural (J : L.Joined ops ops') (sub sup : TypeId) {subTy supTy : Ty} :
    O.Rel (structural ops ask sub sup subTy supTy) (structural ops' ask' sub sup subTy supTy) := by
  have members := O.members h J sub
  unfold Subtyping.structural
  split
  · exact O.allM fun m _ => h m sup
  · have finish : ∀ inMember : Bool, ∀ bound, O.Rel
        (do if inMember then return true else ask bound sup)
        (do if inMember then return true else ask' bound sup) := by
      intro inMember bound
      split
      · exact O.pure true
      · exact h _ _
    dsimp only
    split
    · exact O.bind (O.anyM fun m _ => h sub m) fun inMember => finish inMember _
    · exact O.bind (O.pure false) fun inMember => finish inMember _
  · exact O.anyM fun m _ => h m sup
  · exact O.anyM fun m _ => h sub m
  · exact O.allM fun m _ => h sub m
  · refine O.bind (h _ _) fun holds => ?_
    split
    · exact h _ _
    · exact O.pure false
  · exact O.bind (O.lift (L.unionOf _)) fun keys => h _ _
  · exact h _ _
  · exact h _ _
  · exact O.pure _
  · exact O.pure _
  · exact O.objects h
  · exact members _
  · exact members _
  · exact members _
  · exact members _
  · exact O.pure _
  · exact h _ _
  · refine O.bind (O.allM fun e _ => h e.type _) fun fits => ?_
    split
    · unfold askOption
      split
      · exact h _ _
      · exact O.pure true
    · exact O.pure false
  · exact O.tuples h _ _
  · split
    · split
      · exact h _ _
      · exact O.pure false
    · exact O.pure false
  · exact O.functions h J
  · exact h _ _
  · exact O.pure false

/-- **Two runs of a clause are in lockstep** when the questions are. -/
theorem Over.clause (J : L.Joined ops ops') (sub sup : TypeId) :
    O.Rel (clause ops ask sub sup) (clause ops' ask' sub sup) := by
  refine O.bind (O.lift (L.resolve sub)) fun subTy => O.bind (O.lift (L.resolve sup)) fun supTy => ?_
  refine O.bind (O.byVariance h) fun decided => ?_
  split
  · exact O.pure _
  refine O.bind (O.lift J.reduced?) fun sub' => ?_
  split
  · exact h _ _
  refine O.bind (O.lift J.reduced?) fun sup' => ?_
  split
  · exact h _ _
  · exact O.structural h J sub sup

end Rules

/-! ### Through the recursion guard -/

/-- The relation `L` holds around the recursion guard when `L'` holds inside. -/
structure Bracket (L L' : Lockstep) : Prop where
  guarded {α : Type} (tripped : α) {c c' : TableM α} : L'.Rel c c' →
    L.Rel (guarded tripped c) (guarded tripped c')

namespace Bracket

variable {L L' : Lockstep} (B : Bracket L L') {deeper deeper' : Operations}

include B

theorem state {σ α : Type} (tripped : α) {c c' : StateT σ TableM α} (h : (L'.state σ).Rel c c') :
    (L.state σ).Rel (GradualTyping.guarded tripped c) (GradualTyping.guarded tripped c') := by
  intro st
  rw [guarded_run, guarded_run]
  exact B.guarded _ (h st)

variable (J : L'.Joined deeper deeper')

include J

theorem subtypeStep (assumed : Assumptions) (sub sup : TypeId) :
    L.Rel (Subtyping.step deeper deeper.isSubtype assumed sub sup)
      (Subtyping.step deeper' deeper'.isSubtype assumed sub sup) := by
  refine L.get (fun _ _ _ => rfl) fun t => ?_
  split
  · exact L.pure true
  split
  · exact L.pure true
  · exact B.guarded false (L'.self.clause (fun a b => J.isSubtype _ a b) J sub sup)

theorem substituteStep (s : Substitution) (id : TypeId) :
    (L.state _).Rel (step deeper s id) (step deeper' s id) := by
  unfold Substitution.step
  split
  · exact (L.state _).pure _
  · refine (L.state _).bind L.getThe fun memo => ?_
    split
    · exact (L.state _).pure _
    · refine B.state id ((L'.state _).bind ((L'.state _).lift (L'.resolve id)) fun ty => ?_)
      refine (L'.state _).bind (J.applyNode s id ty) fun result => ?_
      exact (L'.state _).bind (L'.modifyThe _) fun _ => (L'.state _).pure _

theorem matchStep (pattern source : TypeId) (contravariant : Bool) :
    (L.state _).Rel (matchStep deeper pattern source contravariant)
      (matchStep deeper' pattern source contravariant) := by
  refine B.state () ((L'.state _).get (fun _ _ same => ?_) fun t => ?_)
  · simp only [same.placeholders]
    rfl
  split
  · exact L'.modifyThe _
  split
  · exact (L'.state _).pure _
  refine (L'.state _).bind ((L'.state _).lift (J.evaluate source)) fun source => ?_
  refine (L'.state _).bind ((L'.state _).lift (L'.resolve source)) fun sourceTy => ?_
  split
  · split
    · exact (L'.state _).pure _
    · exact (L'.state _).forM fun m _ => J.matchPattern _ _ _
  · exact J.matchNodes _

theorem inferStep (param arg : TypeId) (contravariant : Bool) :
    (L.state _).Rel (Inference.step deeper param arg contravariant)
      (Inference.step deeper' param arg contravariant) := by
  refine (L.state _).bind L.getThe fun i => ?_
  split
  · exact (L.state _).pure _
  · exact (L.state _).bind (L.set _) fun _ => B.state () (J.visit param arg contravariant)

theorem awaitedStep (id : TypeId) : L.Rel (Promise.step deeper id) (Promise.step deeper' id) := by
  refine B.guarded id (L'.bind (J.evaluate id) fun evaluated => L'.bind (L'.resolve evaluated) fun ty => ?_)
  split
  · exact J.awaited _
  · refine L'.bind (L'.self.mapM fun m _ => J.awaited m) fun unwrapped => ?_
    split
    · exact L'.pure id
    · exact L'.unionOf unwrapped
  · exact L'.pure id

/-- **One level up in lockstep**, when the bracket of an evaluation keeps step. -/
theorem above (remembering : ∀ (id : TypeId) {c c' : TableM TypeId}, L'.Rel c c' →
      L'.Rel (remembering id c) (remembering id c')) :
    L.Joined (.above fun _ => deeper) (.above fun _ => deeper') where
  evaluate id := by
    refine L.get (fun _ _ _ => rfl) fun t => ?_
    split
    · exact L.pure _
    split
    · exact B.guarded id (remembering id J.reduce)
    · exact L.pure id
  isSubtype := B.subtypeStep J
  substituteIn := B.substituteStep J
  matchPattern := B.matchStep J
  inferFrom := B.inferStep J
  awaited := B.awaitedStep J

end Bracket

end Lockstep

end GradualTyping
