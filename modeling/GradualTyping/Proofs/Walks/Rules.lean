/-
# The rules of the checker and its stacks

The checker pushes and pops scopes, scopes of type parameters, functions and breakable
statements on its way through a program.  One lemma for each rule: if the checks of all
parts leave the stacks as they were (`Checking.Keeps`), then so does the check of the whole.
What a rule pushes around a part it pops again, which is said once for each kind of
bracket (`level_scope`, `level_frame`, `level_typeScope`, `level_breaks`).
-/

import GradualTyping.Proofs.Tracking.Regions

namespace GradualTyping

open TypeTable Checking

namespace CheckState

/-- The stacks of scopes are the same, and those of functions and of breaks have the same
height and the same outer entries. -/
structure Level (s s' : CheckState) : Prop where
  scopes : s'.scopes = s.scopes
  typeScopes : s'.typeScopes = s.typeScopes
  thisType : s'.thisType = s.thisType
  functions : SameOuter s.functions s'.functions
  breaks : SameOuter s.breaks s'.breaks

/-- All stacks have the same height and the same outer entries. -/
structure Aligned (s s' : CheckState) : Prop where
  scopes : SameOuter s.scopes s'.scopes
  typeScopes : s'.typeScopes = s.typeScopes
  thisType : s'.thisType = s.thisType
  functions : SameOuter s.functions s'.functions
  breaks : SameOuter s.breaks s'.breaks

variable {s s' : CheckState}

theorem Level.refl (s : CheckState) : s.Level s := ⟨rfl, rfl, rfl, .refl _, .refl _⟩

theorem Level.aligned (h : s.Level s') : s.Aligned s' :=
  ⟨h.scopes ▸ .refl _, h.typeScopes, h.thisType, h.functions, h.breaks⟩

instance : Lax Level where
  still h := ⟨h.scopes, h.typeScopes, h.thisType, h.functions, .of_eq h.breaks⟩
  trans h h' := ⟨h'.scopes.trans h.scopes, h'.typeScopes.trans h.typeScopes,
    h'.thisType.trans h.thisType, h.functions.trans h'.functions, h.breaks.trans h'.breaks⟩

instance : Lax Aligned where
  still h := ⟨.of_eq h.scopes, h.typeScopes, h.thisType, h.functions, .of_eq h.breaks⟩
  trans h h' := ⟨h.scopes.trans h'.scopes, h'.typeScopes.trans h.typeScopes,
    h'.thisType.trans h.thisType, h.functions.trans h'.functions, h.breaks.trans h'.breaks⟩

end CheckState

open CheckState

namespace Checking

theorem popScope_of_cons {s : CheckState} {scope : Scope} {outer : List Scope}
    (h : s.scopes = scope :: outer) (t : TypeTable) :
    popScope s t = (((), { s with
      scopes := outer, env := scope.shadowed.foldl restore s.env }), t) := by
  obtain ⟨⟩ := s
  cases h
  rfl

/-! ### Small steps -/

theorem level_setEnv (env : TypeEnv) : Does Level (setEnv env) :=
  .change fun _ => ⟨rfl, rfl, rfl, .refl _, .refl _⟩

theorem level_refine (name : String) (type : TypeId) : Does Level (refine name type) :=
  .change fun _ => ⟨rfl, rfl, rfl, .refl _, .refl _⟩

theorem level_markUnreachable : Does Level markUnreachable :=
  .change fun _ => ⟨rfl, rfl, rfl, .refl _, .refl _⟩

theorem level_addBreak : Does Level addBreak := by
  refine .change fun s => ⟨rfl, rfl, rfl, .refl _, ?_⟩
  dsimp only
  split
  · next h => exact .of_eq h.symm
  · next frame outer h => exact h ▸ .cons ..

theorem level_assume {guard : Guard} : Does Level (assume guard) :=
  .get fun _ => .next (.lift _) level_setEnv

theorem level_forgetAssigned {body : List Stmt} : Does Level (forgetAssigned body) := by
  refine .forM fun name _ => .get fun s => ?_
  split
  · exact level_refine name _
  · exact .pure trivial

theorem does_enterClause {R : CheckState → CheckState → Prop} [Lax R] (subject : Option SwitchSubject)
    (tests : List Expr) (isDefault : Bool) (residual : TypeEnv) :
    Does R (enterClause subject tests isDefault residual) := by
  unfold enterClause
  split
  · exact .pure trivial
  split
  · exact .next (does_clauseGuard _) fun _ => .lift _
  · exact .next (.pure trivial) fun _ => .lift _

theorem does_finishSwitch {R : CheckState → CheckState → Prop} [Lax R] (subject : Option SwitchSubject)
    (declared : Option TypeId) (before : Nat) (span : Span) (state : SwitchState) :
    Does R (finishSwitch subject declared before span state) := by
  unfold finishSwitch
  split
  · exact .pure trivial
  · dsimp only
    split
    · refine .next does_reportMissing fun _ => ?_
      split <;> exact .pure trivial
    · split <;> exact .pure trivial

/-! ### Brackets -/

variable {α : Type} {x : CheckM α}

theorem aligned_of_level (h : Does Level x) : Does Aligned x :=
  fun s t => ⟨(h s t).1.aligned, trivial⟩

theorem aligned_bind (name : String) (type : TypeId) (mutable : Bool) :
    Does Aligned (bind name type mutable) := by
  refine .change fun s => ⟨?_, rfl, rfl, .refl _, .refl _⟩
  dsimp only
  split
  · next h => exact .of_eq h.symm
  · next scope outer h => exact h ▸ .cons ..

theorem aligned_bindParams (site : FunctionSite) : Does Aligned site.bindParams := by
  refine .next (.forM fun p _ => ?_) fun _ => ?_
  · dsimp only
    split
    · exact .next (.lift _) fun _ => aligned_bind _ _ _
    · exact aligned_bind _ _ _
  · split
    · exact .next (.lift _) fun _ => aligned_bind _ _ _
    · exact .pure trivial

/-- A scope around a check that enters names in it. -/
theorem level_scope (h : ∀ (s : CheckState) t, s.scopes ≠ [] → s.Aligned (x s t).1.2) :
    Does Level (do
      pushScope
      let a ← x
      popScope
      return a : CheckM α) := by
  intro s t
  obtain ⟨⟨hlength, htail⟩, h2, h3, h4, h5⟩ := h { s with scopes := {} :: s.scopes } t nofun
  generalize hs' : (x { s with scopes := {} :: s.scopes } t).1.2 = s' at *
  obtain ⟨scope, hscopes⟩ : ∃ scope, s'.scopes = scope :: s.scopes := by
    cases hscopes : s'.scopes with
    | nil =>
      rw [hscopes] at hlength
      cases hlength
    | cons scope outer =>
      rw [hscopes] at htail
      exact ⟨scope, congrArg (scope :: ·) htail⟩
  show s.Level (popScope (x { s with scopes := {} :: s.scopes } t).1.2
    (x { s with scopes := {} :: s.scopes } t).2).1.2 ∧ True
  rw [hs', popScope_of_cons hscopes]
  exact ⟨⟨rfl, h2, h3, h4, h5⟩, trivial⟩

/-- A frame around the body of a function. -/
theorem level_frame (h : Does Level x) (frame : FunctionFrame) : Does Level (do
    modify fun s => { s with functions := frame :: s.functions }
    let a ← x
    let returns := ((← MonadState.get).functions.head?.map (·.returns)).getD []
    modify fun s => { s with functions := s.functions.tail }
    return (a, returns) : CheckM (α × List TypeId)) := by
  intro s t
  obtain ⟨⟨h1, h2, h3, ⟨-, htail⟩, h5⟩, -⟩ := h { s with functions := frame :: s.functions } t
  exact ⟨⟨h1, h2, h3, SameOuter.of_eq htail, h5⟩, trivial⟩

theorem level_typeScope (h : Does Level x) (scope : TypeScope) : Does Level (do
    pushTypeScope scope
    let a ← x
    popTypeScope
    return a : CheckM α) := by
  intro s t
  obtain ⟨⟨h1, h2, h3, h4, h5⟩, -⟩ := h { s with typeScopes := scope :: s.typeScopes } t
  exact ⟨⟨h1, congrArg List.tail h2, h3, h4, h5⟩, trivial⟩

theorem level_typeParams {β : Type} (decls : TypeParams) (span : Span) {x : List TypeId → CheckM α}
    {f : α → CheckM β} (hx : ∀ ids, Does Level (x ids)) (hf : ∀ a, Does Level (f a)) : Does Level (do
      let ids ← pushTypeParams decls span
      let a ← x ids
      popTypeScope
      f a : CheckM β) := by
  have lowered := level_typeScope (does_lowering span (Lowering.lowerTypeParams decls)) []
  have all := Leads.next lowered fun ids =>
    Leads.next (level_typeScope (hx ids) ((decls.map (·.name)).zip ids).reverse) hf
  exact all

theorem level_breaks (h : Does Level x) : Does Level (do
    pushBreaks
    let a ← x
    return (a, ← popBreaks) : CheckM (α × List TypeEnv)) := by
  intro s t
  obtain ⟨⟨h1, h2, h3, h4, -, htail⟩, -⟩ := h { s with breaks := [] :: s.breaks } t
  exact ⟨⟨h1, h2, h3, h4, SameOuter.of_eq htail⟩, trivial⟩

theorem level_this (h : Does Level x) (type : TypeId) : Does Level (do
    let outer := (← MonadState.get).thisType
    modify fun s => { s with thisType := some type }
    let a ← x
    modify fun s => { s with thisType := outer }
    return a : CheckM α) := by
  intro s t
  obtain ⟨⟨h1, h2, -, h4, h5⟩, -⟩ := h { s with thisType := some type } t
  exact ⟨⟨h1, h2, rfl, h4, h5⟩, trivial⟩

/-! ### Expressions -/

/-- The checks of parts keep the stacks. -/
structure Keeps (c : Checks) : Prop where
  expr (e : Expr) (expected : Option TypeId) : Does Level (c.expr e expected)
  block (body : List Stmt) : Does Level (c.block body)

namespace Keeps

variable {c : Checks} (h : Keeps c)
variable {expected : Option TypeId} {span : Span}
variable {args : List Expr} {cond : Expr}

include h

theorem plain {e : Expr} : Does Level (c.plain e) := h.expr e none

theorem checkObject {members : List (ObjectMember Expr)} :
    Does Level (checkObject c members expected) := by
  refine .next (.does (.mapM (A := fun _ => True) fun m _ => ?_)) fun _ => .lift _
  cases m with
  | property name value =>
    have rest (field : Option TypeId) : Does Level (do
        let type ← c.expr value field
        let type ← (widenFor type field : TableM TypeId)
        return [({ name, type } : Property)] : CheckM (List Property)) :=
      .next (h.expr value field) fun _ => .next (.lift _) fun _ => .pure trivial
    cases expected with
    | some e => exact .next (.lift _) rest
    | none => exact rest none
  | spread value => exact .next h.plain fun _ => .next (.lift _) fun _ => .pure trivial

theorem checkElements {elements : List Expr} :
    Does Level (checkElements c elements expected) := by
  unfold Checking.checkElements
  split
  · exact .lift _
  · exact .next (.does (.mapM (A := fun _ => True) fun e _ => h.expr e expected)) fun _ =>
      .next (.lift _) fun _ => .next (.lift _) fun _ => .lift _

theorem checkArray {elements : List Expr} :
    Does Level (checkArray c elements expected) := by
  refine .next (.mapOption fun _ _ => .lift _) fun node => ?_
  split
  · exact .next (.does (.mapM (A := fun _ => True) fun p _ => .next (h.expr p.2 _) fun _ =>
      .next (.lift _) fun _ => .pure trivial)) fun _ => .lift _
  · exact h.checkElements
  · exact h.checkElements

theorem checkArguments (f : Signature) : Does Level (checkArguments c f args) := by
  refine .next (.does (.mapM (A := fun _ => True) fun p _ => ?_)) fun types => ?_
  · dsimp only
    split
    · exact .pure trivial
    · exact (h.expr p.2 _).map fun _ _ => trivial
  · split
    · refine .next (.lift _) fun known => .does (.mapM (A := fun _ => True) fun r _ => ?_)
      dsimp only
      split
      · exact .pure trivial
      · exact .next (.mapOption fun _ _ => .lift _) fun _ => h.expr _ _
    · exact .pure trivial

theorem instantiateCall (f : Signature) {callee : Expr} {typeArgs : List TypeExpr}
    : Does Level (instantiateCall c f callee typeArgs args span) := by
  unfold Checking.instantiateCall
  dsimp only
  split
  · exact .pure trivial
  split
  · exact .next (.does (.mapM (A := fun _ => True) fun type _ => does_lower)) fun explicit =>
      .next does_instantiateExplicit fun _ => .pure trivial
  · exact .next (h.checkArguments f) fun types =>
      .next does_instantiateInferred fun _ => .pure trivial

theorem checkArgument {f : Signature} {i : Nat} {arg : Expr} {known : Option TypeId} :
    Does Level (checkArgument c f i arg known) := by
  unfold Checking.checkArgument
  extract_lets param typed
  clear_value param
  have fit (type : TypeId) : Does Level (typed type) := by
    dsimp only [typed]
    split
    · exact .next does_valueFits fun _ => .pure trivial
    · exact .pure trivial
  split
  · exact fit _
  · exact .next (h.expr arg _) fit

theorem checkCall (kind : CallKind) {callee : Expr} {typeArgs : List TypeExpr}
    : Does Level (checkCall c kind callee typeArgs args span) := by
  refine .next h.plain fun calleeType => .next (.lift _) fun node => ?_
  split
  · extract_lets rest
    have hrest (u : Unit) : Does Level (rest u) :=
      .next (.forM fun e _ => .next h.plain fun _ => .pure trivial) fun _ => .pure trivial
    split
    · exact hrest ()
    · exact .next (.lift _) fun _ => .next (does_report _) hrest
  · next f _ =>
    extract_lets rest
    have hrest (u : Unit) : Does Level (rest u) := by
      refine .next (h.instantiateCall f) fun r => .next
        (.forM fun p _ => h.checkArgument) fun _ => ?_
      split
      · exact .next (.change fun _ => ⟨rfl, rfl, rfl, .refl _, .refl _⟩) fun _ => .pure trivial
      · exact .pure trivial
    split
    · exact hrest ()
    · exact .next (does_report _) hrest

theorem checkFirst {first : Expr} : Does Level (checkFirst c first) :=
  .next h.plain fun _ => .next does_guardOf fun _ => .pure trivial

theorem checkWhere {guard : Guard} {e : Expr} :
    Does Level (checkWhere c guard e expected) :=
  .next level_assume fun _ => h.expr e expected

theorem checkConditional {yes no : Expr} :
    Does Level (checkConditional c cond yes no expected) :=
  .next h.checkFirst fun _ => .get fun outer =>
    .next h.checkWhere fun _ => .next (level_setEnv outer.env) fun _ =>
    .next h.checkWhere fun _ => .next (level_setEnv outer.env) fun _ =>
    .lift _

theorem checkBinary (op : BinaryOp) {left right : Expr} :
    Does Level (checkBinary c op left right) := by
  have logical (isAnd : Bool) : Does Level (checkLogical c isAnd left right) :=
    .next h.checkFirst fun _ => .get fun outer => .next h.checkWhere fun _ =>
      .next (level_setEnv outer.env) fun _ => .next (.lift _) fun _ => .lift _
  unfold Checking.checkBinary
  split
  · exact logical true
  · exact logical false
  · refine .next h.plain fun _ => .next h.plain fun _ => ?_
    split
    · exact .next (.lift _) fun _ => .lift _
    · exact .lift _
    · exact .lift _
    · exact .lift _
    · exact .lift _
    · exact .lift _
    · exact .pure trivial

theorem checkUnary (op : UnaryOp) {operand : Expr} : Does Level (checkUnary c op operand) := by
  refine .next h.plain fun type => ?_
  cases op with
  | not => exact .pure trivial
  | neg => exact .next (.lift _) fun _ => .pure trivial
  | typeOf => exact .lift _

theorem checkAs {value : Expr} {type : TypeExpr} :
    Does Level (checkAs c value type span) := by
  refine .next does_lower fun target => .next (h.expr value (some target)) fun source =>
    .next (.lift _) fun b => ?_
  cases b with
  | true => exact .pure trivial
  | false => exact .next does_reportMismatch fun _ => .pure trivial

theorem checkAssign {target value : Expr} :
    Does Level (checkAssign c target value span) := by
  unfold Checking.checkAssign
  split
  · next name _ =>
    refine .get fun s => ?_
    split
    · exact .next (does_report _) fun _ => h.plain
    · refine .next (.change fun _ => ⟨rfl, rfl, rfl, .refl _, .refl _⟩) fun _ =>
        .next (h.expr value _) fun type => .next does_valueFits fun _ => ?_
      split
      · exact .next (.lift _) fun _ => .next (level_refine name _) fun _ => .pure trivial
      · exact .pure trivial
  · exact .next h.plain fun _ => .next (h.expr value _) fun _ =>
      .next does_valueFits fun _ => .pure trivial

/-! ### Functions -/

theorem checkBody (site : FunctionSite) (expected : Option TypeId) :
    Does Level (site.checkBody c expected) := by
  unfold FunctionSite.checkBody
  split
  · exact .next (h.block _) fun _ => .get fun _ => .pure trivial
  · refine .next (h.expr _ _) fun _ => .next (.lift _) fun type => ?_
    dsimp only
    split
    · exact .next does_valueFits fun _ => .next does_addReturn fun _ => .pure trivial
    · exact .next does_addReturn fun _ => .pure trivial

/-- **Everything that is pushed around the body of a function is popped again.** -/
theorem check (site : FunctionSite) : Does Level (site.check c) := by
  refine .get fun outer => .next (.change fun _ => ⟨rfl, rfl, rfl, .refl _, .refl _⟩) fun _ =>
    .next (.lift _) fun t => ?_
  have framed (expected : Option TypeId) := level_frame (.next
    (does_recordFrom .entry [outer.current] site.span) fun _ => h.checkBody site expected)
    ⟨expected, site.contextual, site.isAsync, []⟩
  have inside := Leads.next (aligned_bindParams site) fun _ =>
    aligned_of_level (.next site.does_expectedResult framed)
  have inScope := level_scope fun s t _ => (inside s t).1
  have whole := Leads.next (level_typeScope inScope (t.paramScope site.signature.typeParams))
    fun r => .next (R := Level) (.change (g := fun s => { s with env := outer.env, current := outer.current })
      fun _ => ⟨rfl, rfl, rfl, .refl _, .refl _⟩) fun _ =>
    show Does Level (if site.hasResult then return site.signature.result
      else site.inferredResult r.2 r.1 : CheckM TypeId) by
      split
      · exact .pure trivial
      · exact .lift _
  simp only [bind_assoc, pure_bind] at whole
  exact whole

theorem checkFunctionExpr (f : FunctionExpr Expr Stmt) (expected : Option TypeId) (span : Span) :
    Does Level (checkFunctionExpr c f expected span) := by
  have inner (contextual : Option Signature) (typeParams : List TypeId) : Does Level (do
      let params ← exprParams contextual f.params
      let result ← f.result.mapM (lower · span)
      let offered ← (contextualResult contextual : TableM _)
      let signature : Signature := { typeParams, params, result := result.getD .any }
      let result ← FunctionSite.check c
        { signature, params := f.params, body := f.body, isAsync := f.isAsync
          hasResult := result.isSome, contextual := offered, span }
      return { signature with result } : CheckM Signature) :=
    .next does_exprParams fun _ =>
      .next (.mapOption fun type _ => does_lower) fun _ => .next (.lift _) fun _ =>
      .next (h.check _) fun _ => .pure trivial
  have rest (contextual : Option Signature) := level_typeParams f.typeParams span (inner contextual)
    fun signature => .lift (functionOf signature)
  simp only [bind_assoc, pure_bind] at rest
  cases expected with
  | some e => exact .next (.lift _) rest
  | none => exact .next (.pure trivial) rest

/-- **The check of an expression keeps the stacks if those of its parts do.** -/
theorem checkExpr (e : Expr) : Does Level (checkExpr c e expected) := by
  refine .next ?_ fun type => .next (.change fun _ => ⟨rfl, rfl, rfl, .refl _, .refl _⟩) fun _ =>
    .pure trivial
  obtain ⟨id, kind, span⟩ := e
  unfold exprType
  cases kind with
  | string | number | bigint => exact .lift _
  | bool | null | undefined => exact .pure trivial
  | template parts =>
    refine .next (.forM fun part _ => ?_) fun _ => .pure trivial
    cases part with
    | text value => exact .pure trivial
    | embedded e => exact .next h.plain fun _ => .pure trivial
  | ident name =>
    refine .get fun s => ?_
    split
    · exact .pure trivial
    · exact .next (does_report _) fun _ => .pure trivial
  | this => exact .get fun _ => .pure trivial
  | object members => exact h.checkObject
  | array elements => exact h.checkArray
  | call callee typeArgs args => exact h.checkCall .call
  | new callee typeArgs args => exact h.checkCall .construct
  | member base property => exact .next h.plain fun type => does_propertyType
  | index base key =>
    exact .next h.plain fun baseType => .next h.plain fun keyType =>
      does_indexedType
  | function f => exact h.checkFunctionExpr f expected span
  | binary op left right => exact h.checkBinary op
  | unary op operand => exact h.checkUnary op
  | conditional cond yes no => exact h.checkConditional
  | await value => exact .next h.plain fun _ => .lift _
  | as_ value type => exact h.checkAs
  | nonNull value => exact .next h.plain fun _ => .lift _
  | assign target value => exact h.checkAssign

/-! ### Classes -/

theorem checkMembers (decl : Class) (instances : Option ObjectShape) (constructor : Option Signature)
    (span : Span) : Does Level (checkMembers c decl instances constructor span) := by
  refine .next (.forM fun field _ => ?_) fun _ => ?_
  · unfold checkField
    split
    · refine .next (h.expr _ _) fun type => ?_
      split
      · exact .next does_valueFits fun _ => .pure trivial
      · exact .pure trivial
    · exact .pure trivial
  have methods : Does Level (decl.methods.forM fun f => checkMethod c instances f span : CheckM Unit) := by
    refine .forM fun f _ => ?_
    unfold checkMethod
    split
    · refine .next (.lift _) fun t => ?_
      split
      · exact .next (h.check _) fun _ => .pure trivial
      · exact .pure trivial
    · exact .pure trivial
  split
  · exact .next (.next (h.check _) fun _ => .pure trivial) fun _ => methods
  · exact methods

theorem checkClass (decl : Class) : Does Level (checkClass c decl span) := by
  refine .next (.lift _) fun t => ?_
  split
  · next declared _ =>
    have whole (constructor : Option Signature) := level_typeScope (.next
      (.lift (referenceTo decl.name declared.params)) fun this => level_this (h.checkMembers decl
        (declared.body.bind fun body => (t.resolve body).object?) constructor span) this)
      (t.paramScope declared.params)
    refine .get fun s => ?_
    split
    · exact .next (.lift _) whole
    · exact whole none
  · exact .pure trivial

/-! ### Statements -/

theorem returnType {value : Option Expr} : Does Level (returnType c value span) := by
  refine .get fun s => ?_
  cases value with
  | some e =>
    refine .next (h.expr e _) fun _ => .next (.lift _) fun type => ?_
    dsimp only
    split
    · exact .next does_valueFits fun _ => .pure trivial
    · exact .pure trivial
  | none =>
    dsimp only
    split
    · exact .next does_fits fun _ => .pure trivial
    · exact .pure trivial

theorem checkIf {yes : List Stmt} (no : Option (List Stmt)) :
    Does Level (checkIf c cond yes no span) := by
  refine .next h.plain fun _ => .next does_guardOf fun guard => .get fun s =>
    .get fun env => .next (.lift _) fun edges => .next (level_setEnv _) fun _ =>
    .next (does_recordFrom _ _ _) fun _ => .next (h.block yes) fun _ => .get fun yesEnd =>
    .next (level_setEnv _) fun _ => .next (does_recordFrom _ _ _) fun _ => ?_
  have rest : Does Level (do
      let noEnd ← MonadState.get
      setEnv (← (yesEnd.env.merge noEnd.env : TableM TypeEnv))
      recordFrom .join [yesEnd.current, noEnd.current] span : CheckM Unit) :=
    .get fun _ => .next (.lift _) fun _ => .next (level_setEnv _) fun _ => does_recordFrom _ _ _
  cases no with
  | none => exact rest
  | some no => exact .next (h.block no) fun _ => rest

theorem checkWhile {body : List Stmt} : Does Level (checkWhile c cond body span) := by
  unfold Checking.checkWhile openLoop runBody
  simp only [bind_assoc, pure_bind]
  refine .next level_forgetAssigned fun _ => .get fun s => .next (does_recordFrom _ _ _)
    fun _ => .get fun header => .get fun _ => .next h.plain fun _ => .next does_guardOf
    fun guard => .get fun env => .next (.lift _) fun edges => .next (level_setEnv _) fun _ =>
    .next (does_recordFrom _ _ _) fun _ => ?_
  have loop := level_breaks (.next (h.block body) fun _ => .get fun s => .pure (R := Level) (a := s.current)
    (A := fun _ => True) trivial)
  have whole := Leads.next loop fun ends => .next (.lift (TypeEnv.join
    (onEdge (constantCondition? cond = some true) edges.2 :: ends.2))) fun env =>
    .next (level_setEnv env) fun _ => does_recordFrom .join [header.current, ends.1] span
  simp only [bind_assoc, pure_bind] at whole
  exact whole

theorem checkClause (subject : Option SwitchSubject) {before : Nat} (state : SwitchState)
    {group : List Case} : Does Level (checkClause c subject before span state group) := by
  have opened : Does Level (openClause c subject before span state group) :=
    .next (.forM fun e _ => .next h.plain fun _ => .pure trivial) fun _ =>
      .next (does_enterClause _ _ _ _) fun _ => .next (level_setEnv _) fun _ =>
      .next (does_recordFrom _ _ _) fun _ => .pure trivial
  have whole := Leads.next opened fun residual =>
    .next (level_breaks (h.block (clauseBody group))) fun ends => .get fun after =>
    .next (level_setEnv {}) fun _ => .pure (R := Level) (A := fun _ => True)
    (a := ({
      residual
      exits := state.exits ++ ends.2 ++ [after.env]
      ends := state.ends ++ [after.current]
      hasDefault := state.hasDefault || group.any (·.test.isNone) } : SwitchState)) trivial
  simp only [bind_assoc, pure_bind] at whole
  exact whole

theorem varTypes (kind : VarKind) (type : Option TypeExpr) (init : Option Expr) (span : Span) :
    Does Level (varTypes c kind type init span) := by
  refine .next (.mapOption fun type _ => does_lower) fun declared =>
    .next (.mapOption fun e _ => .next (h.expr e declared) fun _ => .pure trivial) fun actual => ?_
  split
  · split
    · exact .next does_expectNever fun _ => .pure trivial
    · refine .next does_valueFits fun fit => ?_
      cases fit with
      | true => exact .next (.lift _) fun _ => .pure trivial
      | false => exact .pure trivial
  · exact .pure trivial
  · split
    · exact .pure trivial
    · exact .next (.lift _) fun _ => .pure trivial
  · exact .pure trivial

theorem inferredType? (f : FunctionDecl Stmt) (span : Span) :
    Does Level (inferredType? c f span) := by
  unfold Checking.inferredType?
  split
  · exact .pure trivial
  refine .get fun s => ?_
  split
  · exact .pure trivial
  refine .next (.lift _) fun found => ?_
  split
  · exact .pure trivial
  refine .next (h.check _) fun result => ?_
  split
  · exact .pure trivial
  · exact .next (.lift _) fun _ => .pure trivial

/-- **The check of a statement keeps the stacks if those of its parts do**, unless the
statement declares a variable or a function. -/
theorem level_checkStmt (s : Stmt) (hvar : ∀ kind name type init, s.kind ≠ .var kind name type init)
    (hfunction : ∀ f, s.kind ≠ .function f) : Does Level (checkStmt c s) := by
  obtain ⟨kind, span⟩ := s
  unfold checkStmt
  cases kind with
  | typeAlias | interface => exact .pure trivial
  | class_ decl => exact h.checkClass decl
  | function f => exact absurd rfl (hfunction f)
  | var kind name type init => exact absurd rfl (hvar kind name type init)
  | expr e =>
    refine .next h.plain fun _ => .next (does_ofAssertion? e) fun guard => ?_
    split
    · exact level_assume
    · exact .pure trivial
  | return_ value =>
    exact .next h.returnType fun type => .next does_addReturn fun _ =>
      level_markUnreachable
  | if_ cond yes no => exact h.checkIf no
  | switch subject cases =>
    exact .next h.plain fun _ => .get fun s => .next (.foldlM
      (fun state group _ => h.checkClause _ state) _) fun state =>
      .next (does_finishSwitch _ _ _ _ _) fun _ => .next (.lift _) fun _ => .next (level_setEnv _) fun _ =>
      does_recordFrom _ _ _
  | while_ cond body => exact h.checkWhile
  | block body => exact h.block body
  | throw_ value => exact .next h.plain fun _ => level_markUnreachable
  | break_ => exact level_addBreak

end Keeps

end Checking

end GradualTyping
