/-
# Reachable tables

The operations of the library as data: a program on a table is a sequence of them, each
on types of the table it meets.  A table is *reachable* when such a sequence leads to it
from a table of fixed types.

Every reachable table is sound and at rest (`Reachable.sound_quiescent`).  That it is
sound reads as two statements:

* nodes and index are inverse to each other, the fixed types stand first, every node
  holds earlier types only, and no operation changes a node (`Reachable.wellFormed`);
* every node is in canonical form (`Reachable.canonicalForms`).
-/

import Mathlib
import GradualTyping.Proofs.Tracking.Runs

namespace GradualTyping

open TypeTable TypeEnv

/-- No guarded operation, evaluation or expansion is under way. -/
structure TypeTable.Quiescent (t : TypeTable) : Prop where
  depth : t.depth = 0
  evaluating : t.evaluating = []
  expanding : t.expanding = []

/-- An operation of the library with its arguments. -/
inductive Operation where
  | literal (value : Literal)
  | object (properties : List Property) (index : Option TypeId)
  | array (element : TypeId)
  | tuple (elements : List TupleElement) (rest : Option TypeId)
  | function (f : Signature)
  | promise (inner : TypeId)
  | param (p : TypeParam)
  | reference (name : String) (args : List TypeId)
  | conditional (c : Conditional)
  | placeholder (name : String)
  | mapped (m : MappedShape)
  | keyOf (operand : TypeId)
  | indexed (base key : TypeId)
  | template (spans : List TemplateSpan)
  | caseMapped (change : CaseChange) (inner : TypeId)
  | union (members : List TypeId)
  | intersection (members : List TypeId)
  | freshScope
  | freshVariable
  | widen (type : TypeId)
  | declareAlias (name : String) (params : List TypeId)
  | defineAlias (name : String) (body : TypeId)
  | instantiateAlias (name : String) (args : List TypeId)
  | substitute (σ : Substitution) (type : TypeId)
  | evaluate (type : TypeId)
  | isSubtype (sub sup : TypeId)
  | isEqual (a b : TypeId)
  | checkSubtype (sub sup : TypeId)
  | startInference (params : List TypeId)
  | infer (inference : Inference) (param arg : TypeId)
  | partialSolution (inference : Inference)
  | solve (inference : Inference)
  | inferCall (f : Signature) (args : List TypeId)
  | awaited (type : TypeId)
  | unwrapOnce (type : TypeId)
  | wrapAsyncResult (body : TypeId)
  | declaredAsyncResult (declared : TypeId)
  | member (type : TypeId) (name : String)
  | keyNames (type : TypeId)
  | takeDepthError
  | fork
  | namedMembers (type : TypeId)
  | narrow (type : TypeId) (test : Test) (negated : Bool)
  | narrowByAssignment (declared assigned : TypeId)
  | assume (env : TypeEnv) (guard : Guard)
  | join (envs : List TypeEnv)
  | exhaustiveness (subject : SwitchSubject) (declared residual : TypeId) (hasDefault : Bool)
  | describeMembers (type : TypeId)
  | lower (state : LowerState) (type : TypeExpr)
  | declareBlock (state : LowerState) (block : List Stmt)
  | checkCondition (settings : Settings) (values : List (String × TypeId)) (cond : Expr)
  | checkProgram (settings : Settings) (values : List (String × TypeId)) (unit : CodeUnit)

namespace Operation

/-- The table after an operation. -/
def run (t : TypeTable) : Operation → TypeTable
  | literal value => (literalType value t).2
  | object properties index => (objectOf properties index t).2
  | array element => (arrayOf element t).2
  | tuple elements rest => (tupleOf elements rest t).2
  | function f => (functionOf f t).2
  | promise inner => (promiseOf inner t).2
  | param p => (intern (.param p) t).2
  | reference name args => (referenceTo name args t).2
  | conditional c => (intern (.conditional c) t).2
  | placeholder name => (intern (.infer name) t).2
  | mapped m => (intern (.mapped m) t).2
  | keyOf operand => (intern (.keyOf operand) t).2
  | indexed base key => (intern (.indexed base key) t).2
  | template spans => (templateOf spans t).2
  | caseMapped change inner => (intern (.caseMapped change inner) t).2
  | union members => (unionOf members t).2
  | intersection members => (intersectionOf members t).2
  | freshScope => (GradualTyping.freshScope t).2
  | freshVariable => (GradualTyping.freshVariable t).2
  | widen type => (widenLiterals type t).2
  | declareAlias name params => (GradualTyping.declareAlias name params t).2
  | defineAlias name body => ((GradualTyping.defineAlias name body).run t).2
  | instantiateAlias name args => ((GradualTyping.instantiateAlias name args).run t).2
  | substitute σ type => (GradualTyping.substitute σ type t).2
  | evaluate type => (GradualTyping.evaluate type t).2
  | isSubtype sub sup => (GradualTyping.isSubtype sub sup t).2
  | isEqual a b => (GradualTyping.isEqual a b t).2
  | checkSubtype sub sup => (GradualTyping.checkSubtype sub sup t).2
  | startInference params => (Inference.start params t).2
  | infer i p a => ((Inference.infer t.operations p a).run i t).2
  | partialSolution inference => (inference.partialSolution t.operations t).2
  | solve inference => (inference.solve t.operations t).2
  | inferCall f args => (GradualTyping.inferCall f args t).2
  | awaited type => (GradualTyping.awaited type t).2
  | unwrapOnce type => (GradualTyping.unwrapOnce type t).2
  | wrapAsyncResult body => (GradualTyping.wrapAsyncResult body t).2
  | declaredAsyncResult declared => (declaredAsyncResult? declared t).2
  | member type name => (builtinMember? type name t).2
  | keyNames type => (GradualTyping.keyNames type t).2
  | takeDepthError => (GradualTyping.takeDepthError t).2
  | fork => t.fork
  | namedMembers type => (GradualTyping.namedMembers type t).2
  | narrow type test negated => (narrowByTest type test negated t).2
  | narrowByAssignment declared assigned => (GradualTyping.narrowByAssignment declared assigned t).2
  | assume env guard => (env.apply guard t).2
  | join envs => (TypeEnv.join envs t).2
  | exhaustiveness subject declared residual hasDefault =>
    (subject.exhaustiveness declared residual hasDefault t).2
  | describeMembers type => (GradualTyping.describeMembers type t).2
  | lower state type => ((Lowering.lower type).run state t).2
  | declareBlock state block => ((Lowering.declareBlock block).run state t).2
  | checkCondition settings values cond => (GradualTyping.checkCondition settings values cond t).2
  | checkProgram settings values unit => (GradualTyping.checkProgram settings values unit t).2

/-- The types that an operation is given are among the first `n`. -/
def Within (n : Nat) : Operation → Prop
  | literal _ | placeholder _ | freshScope | freshVariable | takeDepthError | fork => True
  | object properties index => Below n properties ∧ Below n index
  | tuple elements rest => Below n elements ∧ Below n rest
  | function f => Below n f
  | param p => Below n p
  | conditional c => Below n c
  | mapped m => Below n m
  | template spans => Below n spans
  | reference _ ids | union ids | intersection ids | declareAlias _ ids | instantiateAlias _ ids
  | startInference ids => Below n ids
  | array id | promise id | keyOf id | caseMapped _ id | widen id | defineAlias _ id | evaluate id
  | awaited id | unwrapOnce id | wrapAsyncResult id | declaredAsyncResult id | member id _
  | keyNames id | namedMembers id | describeMembers id => Below n id
  | indexed a b | isSubtype a b | isEqual a b | checkSubtype a b | narrowByAssignment a b
  | exhaustiveness _ a b _ => Below n a ∧ Below n b
  | substitute σ id => Below n σ ∧ Below n id
  | infer i a b => Below n i ∧ Below n a ∧ Below n b
  | partialSolution i | solve i => Below n i
  | inferCall f args => Below n f ∧ Below n args
  | narrow id test _ => Below n id ∧ Below n test
  | assume env guard => Below n env ∧ Below n guard
  | join envs => Below n envs
  | lower state _ | declareBlock state _ => Below n state
  | checkCondition _ values _ | checkProgram _ values _ => Below n values

/-- **One operation on types of a sound table at rest continues it and leaves it sound.** -/
theorem continues_run {t : TypeTable} (s : t.Sound) (rest : t.Quiescent) (op : Operation)
    (h : op.Within t.size) : (op.run t).Sound ∧ t.Continues (op.run t) := by
  -- Most operations are triples over the table alone.
  have grown : ∀ {α : Type} {c : TableM α} {Q : TypeTable → α → Prop}, Leaves Continues t c Q →
      (c t).2.Sound ∧ t.Continues (c t).2 := fun h => ⟨h.sound, h.related⟩
  have ran : ∀ {α : Type} {c : TableM α} {Q : TypeTable → α → Prop}, Leaves Runs t c Q →
      (c t).2.Sound ∧ t.Continues (c t).2 := fun h => ⟨h.sound, h.related.toContinues⟩
  have ops := safe_operations t
  cases op with
  | literal value => exact ran (safe_literalType s)
  | object properties index => exact ran (safe_objectOf s h.1 h.2)
  | array element => exact ran (safe_arrayOf s h)
  | tuple elements rest => exact ran (safe_tupleOf s h.1 h.2)
  | function f => exact ran (safe_functionOf s h)
  | promise inner => exact ran (safe_promiseOf s h)
  | param p => exact ran (safe_param s h)
  | reference name args => exact ran (safe_referenceTo s h)
  | conditional c => exact ran (safe_conditional s h)
  | placeholder name => exact ran (c := intern (.infer name)) (safe_intern s trivial trivial rfl)
  | mapped m => exact ran (c := intern (.mapped m)) (safe_intern s h trivial rfl)
  | keyOf operand => exact ran (safe_keyOf s h)
  | indexed base key => exact ran (c := intern (.indexed base key)) (safe_intern s h trivial rfl)
  | template spans => exact ran (safe_templateOf s h)
  | caseMapped change inner => exact ran (safe_caseMapped s change h)
  | union members => exact ran (safe_unionOf s h)
  | intersection members => exact ran (safe_intersectionOf s h)
  | freshScope => exact ran (safe_freshScope s)
  | freshVariable => exact ran (safe_freshVariable s)
  | widen type => exact ran (safe_widenLiterals s h)
  | declareAlias name params => exact grown (growing_declareAlias s h)
  | defineAlias name body => exact grown (growing_defineAlias s h).runExcept
  | instantiateAlias name args => exact ran (safe_instantiateAlias s h).runExcept
  | substitute σ type => exact ran (safe_substitute s h.1 h.2)
  | evaluate type => exact ran (safe_evaluate s h)
  | isSubtype sub sup => exact ran (safe_isSubtype s h.1 h.2)
  | isEqual a b => exact ran (safe_isEqual s h.1 h.2)
  | checkSubtype sub sup => exact grown (growing_checkSubtype s h.1 h.2)
  | startInference params => exact ran (Inference.safe_start s h)
  | infer i p a => exact ran ((Inference.safe_infer ops s h.2.1 h.2.2).run h.1)
  | partialSolution inference => exact ran (Inference.safe_partialSolution ops s h)
  | solve inference => exact ran (Inference.safe_solve ops s h)
  | inferCall f args => exact ran (safe_inferCall s h.1 h.2)
  | awaited type => exact ran (safe_awaited s h)
  | unwrapOnce type => exact ran (safe_unwrapOnce s h)
  | wrapAsyncResult body => exact ran (safe_wrapAsyncResult s h)
  | declaredAsyncResult declared => exact ran (safe_declaredAsyncResult? s h)
  | member type name => exact ran (safe_builtinMember? s h name)
  | keyNames type => exact ran (safe_keyNames s h)
  | takeDepthError => exact grown (growing_takeDepthError s)
  | fork =>
    exact ⟨s.of_rest rfl rfl rfl rfl rfl, ⟨List.prefix_refl _, rfl⟩, rest.depth.symm,
      rest.evaluating.symm, rest.expanding.symm, id, .inl⟩
  | namedMembers type => exact ran (safe_namedMembers s h)
  | narrow type test negated => exact ran (safe_narrowByTest s h.1 h.2 negated)
  | narrowByAssignment declared assigned => exact ran (safe_narrowByAssignment s h.1 h.2)
  | assume env guard => exact ran (safe_apply s h.2 h.1)
  | join envs => exact ran (TypeEnv.safe_join s h)
  | exhaustiveness subject declared residual hasDefault =>
    exact ran (subject.keeps_exhaustiveness s h.1 h.2)
  | describeMembers type => exact ran (keeps_describeMembers s h)
  | lower state type => exact ran ((Lowering.safe_lower type s).run h)
  | declareBlock state block => exact grown ((Lowering.growing_declareBlock s).run h)
  | checkCondition settings values cond =>
    exact grown (growing_checkCondition s rest.evaluating h)
  | checkProgram settings values unit =>
    exact grown (growing_checkProgram s rest.evaluating h)

end Operation

namespace TypeTable

/-- Tables that operations on types of the table lead to. -/
inductive Reachable : TypeTable → Prop
  | start (limits : Limits) : Reachable (withLimits limits)
  | step {t : TypeTable} (op : Operation) : Reachable t → op.Within t.size → Reachable (op.run t)

variable {t : TypeTable}

/-- **Every reachable table is sound and at rest.** -/
theorem Reachable.sound_quiescent (h : t.Reachable) : t.Sound ∧ t.Quiescent := by
  induction h with
  | start limits =>
    refine ⟨sound_withLimits limits, ?_⟩
    rw [withLimits_eq]
    exact ⟨rfl, rfl, rfl⟩
  | step op _ hop ih =>
    obtain ⟨s', c⟩ := op.continues_run ih.1 ih.2 hop
    exact ⟨s', c.depth.trans ih.2.depth, c.evaluating.trans ih.2.evaluating,
      c.expanding.trans ih.2.expanding⟩

theorem Reachable.sound (h : t.Reachable) : t.Sound := h.sound_quiescent.1

theorem Reachable.quiescent (h : t.Reachable) : t.Quiescent := h.sound_quiescent.2

/-- **Tables are well-formed.**  In every reachable table a node stands at a position
exactly if the index gives the position for it, the fixed types stand at the first
thirteen positions, a node holds earlier types only, and every operation on types of
the table keeps the node at every position. -/
theorem Reachable.wellFormed (h : t.Reachable) :
    (∀ id ty, t.get? id = some ty ↔ t.lookup? ty = some id) ∧
    (∀ i < 13, t.get? ⟨i⟩ = fixed[i]?) ∧
    (∀ id ty, t.get? id = some ty → ∀ child ∈ ty.ids, child.index < id.index) ∧
    ∀ op : Operation, op.Within t.size →
      ∀ id ty, t.get? id = some ty → (op.run t).get? id = some ty := by
  have s := h.sound
  refine ⟨fun id ty => (s.indexed id ty).symm, fun i hi => ?_, fun id ty hty => ?_,
    fun op hop id ty hty => (op.continues_run s h.quiescent hop).2.get? hty⟩
  · obtain ⟨rest, hrest⟩ := s.fixed
    rw [TypeTable.get?, ← Array.getElem?_toList, ← hrest]
    exact List.getElem?_append_left hi
  · exact below_iff_ids.1 (s.earlier hty)

/-- A table after an alias has been declared, made into a promise and evaluated. -/
theorem wellFormed_evaluated_promise :
    let a := (declareAlias "A" []) (withLimits {})
    let p := (promiseOf a.1) a.2
    let t := (Operation.evaluate p.1).run p.2
    t.Reachable ∧ (∀ id ty, t.get? id = some ty ↔ t.lookup? ty = some id) ∧
      t.get? ⟨12⟩ = some (.literal (.boolean false)) := by
  intro a p t
  have r₀ : (withLimits {}).Reachable := .start {}
  have r₁ : a.2.Reachable := .step (.declareAlias "A" []) r₀ below_nil
  have ha : Below a.2.size a.1 := (growing_declareAlias r₀.sound below_nil).post
  have r₂ : p.2.Reachable := .step (.promise a.1) r₁ ha
  have hp : Below p.2.size p.1 := (safe_promiseOf r₁.sound ha).post
  have r₃ : t.Reachable := .step (.evaluate p.1) r₂ hp
  exact ⟨r₃, r₃.wellFormed.1, r₃.wellFormed.2.1 12 (by decide)⟩

/-- **Nodes are canonical.**  In every reachable table every node is in canonical form. -/
theorem Reachable.canonicalForms (h : t.Reachable) :
    ∀ id ty, t.get? id = some ty → t.Canonical ty :=
  fun _ _ hty => h.sound.canonical hty

/-- `string | true | false` is stored as `string | boolean`. -/
theorem canonicalForms_booleans :
    let u := unionOf [.string, .true, .false] (withLimits {})
    u.2.Reachable ∧ u.2.get? u.1 = some (.union [.string, .boolean]) ∧
      u.2.CanonicalUnion [.string, .boolean] := by
  have hget : let u := unionOf [.string, .true, .false] (withLimits {})
      u.2.get? u.1 = some (.union [.string, .boolean]) := by cbv
  have s := sound_withLimits {}
  have r := (Reachable.start {}).step (.union [.string, .true, .false])
    (below_cons.2 ⟨s.below_fixed rfl, below_cons.2 ⟨s.below_fixed rfl,
      below_singleton.2 (s.below_fixed rfl)⟩⟩)
  exact ⟨r, hget, r.canonicalForms _ _ hget⟩

end TypeTable

/-- The answer of an operation on a fresh table, unless the guard trips. -/
def fresh? {α : Type} (c : TableM α) : Option α :=
  if (c (withLimits {})).2.depthError.isNone then some (c (withLimits {})).1 else none

end GradualTyping
