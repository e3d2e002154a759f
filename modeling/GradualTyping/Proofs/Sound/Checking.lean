/-
# The state of checking

The state of checking holds types of the table only: in its scopes, in the
environments of the current point, of the breaks and of the flow graph, and in what
has been recorded for expressions and calls.  Every operation on the state keeps it
so.  Lowering declarations and taking the error of the recursion guard are the only
steps of checking that do more to the table than run on it, so the triples of this
module and the next are those of `Growing`.
-/

import GradualTyping.Checking.Statements
import GradualTyping.Proofs.Sound.Lowering
import GradualTyping.Proofs.Sound.Narrowing

namespace GradualTyping

open TypeTable List Substitution TypeEnv

instance : Bounded LocalVariable := ⟨fun n b => Below n b.declared, Bounded.mono⟩

instance : Bounded Scope :=
  ⟨fun n scope => Below n scope.bindings ∧ Below n scope.shadowed,
    fun h => .imp (Bounded.mono h) (Bounded.mono h)⟩

instance : Bounded FunctionFrame :=
  ⟨fun n f => Below n f.expected ∧ Below n f.contextual ∧ Below n f.returns,
    fun h => .imp (Bounded.mono h) (.imp (Bounded.mono h) (Bounded.mono h))⟩

instance : Bounded FlowNode := ⟨fun n node => Below n node.env, Bounded.mono⟩

instance : Bounded FlowGraph := ⟨fun n g => Below n g.nodes.toList, Bounded.mono⟩

instance {α : Type} [Bounded α] : Bounded (Std.TreeMap Nat α) :=
  ⟨fun n m => ∀ k : Nat, Below n m[k]?, fun h hm k => Bounded.mono h (hm k)⟩

theorem below_insert_treeMap {α : Type} [Bounded α] {n : Nat} {m : Std.TreeMap Nat α}
    (h : Below n m) {k : Nat} {a : α} (ha : Below n a) : Below n (m.insert k a) := by
  intro j
  rw [Std.TreeMap.getElem?_insert]
  split
  · exact below_some.2 ha
  · exact h j

namespace CheckState

/-- All types in a state of checking are among the first `n`. -/
structure Within (n : Nat) (st : CheckState) : Prop where
  globals : Below n st.globals
  scopes : Below n st.scopes
  typeScopes : Below n st.typeScopes
  env : Below n st.env
  flow : Below n st.flow
  exprTypes : Below n st.exprTypes
  callPredicates : Below n st.callPredicates
  functions : Below n st.functions
  breaks : Below n st.breaks
  thisType : Below n st.thisType

theorem Within.mono {m n : Nat} {st : CheckState} (h : m ≤ n) (hst : st.Within m) :
    st.Within n where
  globals := Bounded.mono h hst.globals
  scopes := Bounded.mono h hst.scopes
  typeScopes := Bounded.mono h hst.typeScopes
  env := Bounded.mono h hst.env
  flow := Bounded.mono h hst.flow
  exprTypes := Bounded.mono h hst.exprTypes
  callPredicates := Bounded.mono h hst.callPredicates
  functions := Bounded.mono h hst.functions
  breaks := Bounded.mono h hst.breaks
  thisType := Bounded.mono h hst.thisType

instance : Bounded CheckState := ⟨Within, Within.mono⟩

end CheckState

variable {t : TypeTable}

/-! ### Scopes -/

namespace Scope

variable {n : Nat} {scope : Scope}

theorem below_get? (h : Below n scope) (name : String) : Below n (scope.get? name) :=
  h.1.lookup name

theorem below_insert (h : Below n scope) {name : String} {b : LocalVariable} (hb : Below n b)
    {previous : Option TypeId} (hprevious : Below n previous) :
    Below n (scope.insert name b previous) := by
  unfold insert
  split
  · exact ⟨below_append.2 ⟨h.1, below_singleton.2 ⟨trivial, hb⟩⟩,
      below_cons.2 ⟨⟨trivial, hprevious⟩, h.2⟩⟩
  · refine ⟨Bounded.Below.map fun p hp => ?_, h.2⟩
    split
    · exact ⟨trivial, hb⟩
    · exact h.1 p hp

theorem below_redeclare (h : Below n scope) {name : String} {type : TypeId} (htype : Below n type) :
    Below n (scope.redeclare name type) := by
  refine ⟨Bounded.Below.map fun p hp => ?_, h.2⟩
  split
  · exact ⟨trivial, htype⟩
  · exact h.1 p hp

end Scope

namespace CheckState

variable {n : Nat} {st : CheckState}

theorem below_binding? (h : Below n st) (name : String) : Below n (st.binding? name) :=
  .findSome? fun _ hscope => Scope.below_get? (h.scopes _ hscope) name

theorem below_declared? (h : Below n st) (name : String) : Below n (st.declared? name) :=
  Bounded.Below.or (below_map_option (below_binding? h name) fun _ hb => hb) (h.globals.lookup name)

theorem below_value? (h : Below n st) (name : String) : Below n (st.value? name) := by
  unfold value?
  split
  · next b hb =>
    exact below_some.2 ((below_get? h.env name).getD (below_binding? h name b hb))
  · exact h.globals.lookup name

end CheckState

theorem TypeTable.Sound.below_paramScope {params : List TypeId}
    (h : t.Has params) : t.Has (t.paramScope params) := by
  intro p hp
  obtain ⟨id, hid, hp⟩ := mem_filterMap.1 (mem_reverse.1 hp)
  obtain ⟨q, _, rfl⟩ := Option.map_eq_some_iff.1 hp
  exact ⟨trivial, h id hid⟩

namespace Checking

theorem below_redeclareIn {n : Nat} {scopes : List Scope} (h : Below n scopes) {name : String}
    {type : TypeId} (htype : Below n type) : Below n (redeclareIn name type scopes) := by
  induction scopes with
  | nil => exact below_nil
  | cons scope outer ih =>
    obtain ⟨hscope, houter⟩ := below_cons.1 h
    unfold redeclareIn
    split
    · exact below_cons.2 ⟨Scope.below_redeclare hscope htype, houter⟩
    · exact below_cons.2 ⟨hscope, ih houter⟩

theorem below_restore {n : Nat} {env : TypeEnv} (h : Below n env) {p : String × Option TypeId}
    (hp : Below n p) : Below n (restore env p) := by
  obtain ⟨name, previous⟩ := p
  cases previous with
  | none => exact below_erase h
  | some type => exact below_insert h (below_some.1 hp.2)

theorem below_forgetMutable {n : Nat} {env : TypeEnv} (h : Below n env) {scope : Scope}
    (hscope : Below n scope) : Below n (forgetMutable env scope) := by
  refine h.foldl fun env henv p hp => ?_
  dsimp only
  split
  · exact below_insert henv (hscope.1 p hp).2
  · exact henv

/-! ### Operations on the state

Each changes a few fields and leaves the table alone, so its triple holds for every
relation between tables. -/

section State

variable (s : t.Sound)
variable {span : Span}

include s

/-- A change of the state. -/
theorem keeps_change {g : CheckState → CheckState} (hg : ∀ st, t.Has st → t.Has (g st)) :
    Keeps Continues t (modify g : CheckM PUnit) fun _ _ => True :=
  .modifyThe s hg

theorem keeps_report (p : Problem) : Keeps Continues t (report p span) fun _ _ => True :=
  keeps_change s fun _ hst => { hst with }

theorem keeps_bind (name : String) {type : TypeId} (h : t.Has type) (mutable : Bool) :
    Keeps Continues t (bind name type mutable) fun _ _ => True := by
  refine keeps_change s fun st hst =>
    { hst with scopes := ?_, env := below_insert hst.env h }
  dsimp only
  split
  · exact below_nil
  · next scope outer hscopes =>
    obtain ⟨hscope, houter⟩ := below_cons.1 (hscopes ▸ hst.scopes)
    exact below_cons.2 ⟨Scope.below_insert hscope h (below_get? hst.env name), houter⟩

theorem keeps_redeclare (name : String) {type : TypeId} (h : t.Has type) :
    Keeps Continues t (redeclare name type) fun _ _ => True := by
  refine keeps_change s fun st hst => ?_
  split
  · exact hst
  · exact { hst with
      scopes := below_redeclareIn hst.scopes h, env := below_insert hst.env h }

theorem keeps_pushScope : Keeps Continues t pushScope fun _ _ => True :=
  keeps_change s fun _ hst =>
    { hst with scopes := below_cons.2 ⟨⟨below_nil, below_nil⟩, hst.scopes⟩ }

theorem keeps_popScope : Keeps Continues t popScope fun _ _ => True := by
  refine keeps_change s fun st hst => ?_
  split
  · exact hst
  · next scope outer hscopes =>
    obtain ⟨hscope, houter⟩ := below_cons.1 (hscopes ▸ hst.scopes)
    exact { hst with
      scopes := houter
      env := hst.env.foldl fun env henv p hp => below_restore henv (hscope.2 p hp) }

theorem keeps_pushTypeScope {scope : TypeScope} (h : t.Has scope) :
    Keeps Continues t (pushTypeScope scope) fun _ _ => True :=
  keeps_change s fun _ hst => { hst with typeScopes := below_cons.2 ⟨h, hst.typeScopes⟩ }

theorem keeps_popTypeScope : Keeps Continues t popTypeScope fun _ _ => True :=
  keeps_change s fun _ hst => { hst with typeScopes := hst.typeScopes.tail }

theorem keeps_resetMutable : Keeps Continues t resetMutable fun _ _ => True :=
  keeps_change s fun _ hst => { hst with
    env := hst.env.foldl fun _ henv scope hscope =>
      below_forgetMutable henv (hst.scopes scope (mem_reverse.1 hscope)) }

theorem keeps_recordFrom (kind : FlowKind) (preds : List Nat) (span : Span) :
    Keeps Continues t (recordFrom kind preds span) fun _ _ => True := by
  refine keeps_change s fun st hst => { hst with flow := ?_ }
  show t.Has (st.flow.nodes.push _).toList
  rw [Array.toList_push]
  exact below_append.2 ⟨hst.flow, below_singleton.2 hst.env⟩

theorem keeps_pushBreaks : Keeps Continues t pushBreaks fun _ _ => True :=
  keeps_change s fun _ hst => { hst with breaks := below_cons.2 ⟨below_nil, hst.breaks⟩ }

theorem keeps_addBreak : Keeps Continues t addBreak fun _ _ => True := by
  refine keeps_change s fun st hst => { hst with breaks := ?_, env := hst.env }
  dsimp only
  split
  · exact below_nil
  · next frame outer hb =>
    obtain ⟨hframe, houter⟩ := below_cons.1 (hb ▸ hst.breaks)
    exact below_cons.2 ⟨below_append.2 ⟨hframe, below_singleton.2 hst.env⟩, houter⟩

theorem keeps_addReturn {type : TypeId} (h : t.Has type) :
    Keeps Continues t (addReturn type) fun _ _ => True := by
  refine keeps_change s fun st hst => { hst with functions := ?_ }
  dsimp only
  split
  · exact below_nil
  · next f outer hf =>
    obtain ⟨hf, houter⟩ := below_cons.1 (hf ▸ hst.functions)
    have hreturns := below_append.2 ⟨hf.2.2, below_singleton.2 h⟩
    exact below_cons.2 ⟨⟨hf.1, hf.2.1, hreturns⟩, houter⟩

/-! ### Written types and giving up -/

omit s in
theorem growing_lowering {α : Type} [Bounded α] {body : LowerM α}
    (h : Growing t body) : Growing t (lowering span body) := by
  refine .getThe fun st hst => ?_
  have hlower : t.Has
      ({ scopes := st.typeScopes, valueOf := st.declared?, span } : LowerState) :=
    ⟨hst.typeScopes, CheckState.below_declared? hst⟩
  refine Tabled.Keeps.bind (.lift (h.run hlower)) fun t1 p s1 _ hp => ?_
  refine Tabled.Keeps.bind (Q := fun t' _ => t' = t1) ?_ fun t2 _ s2 _ e => .pure s2 (e ▸ hp.1)
  exact fun st' hst' => ⟨s1, Along.refl t1, rfl, { hst' with }⟩

theorem growing_lower {type : TypeExpr} : Growing t (lower type span) :=
  growing_lowering (Lowering.safe_lower type s).weaken

theorem growing_pushTypeParams (decls : TypeParams) : Growing t (pushTypeParams decls span) := by
  refine (keeps_pushTypeScope s below_nil).bind fun t1 _ s1 _ _ => ?_
  refine (growing_lowering (Lowering.safe_lowerTypeParams s1).weaken).bind
    fun t2 ids s2 _ hids => ?_
  refine (keeps_popTypeScope s2).bind fun t3 _ s3 g3 _ => ?_
  refine (keeps_pushTypeScope s3 fun p hp => ?_).bind fun t4 _ s4 g4 _ =>
    .pure s4 ((g3.trans g4) hids)
  exact ⟨trivial, g3 (hids _ (of_mem_zip (mem_reverse.1 hp)).2)⟩

theorem growing_isAbandoned {mark : Nat} : Growing t (isAbandoned mark span) := by
  refine .getThe fun st _ => ?_
  split
  · exact .pure s trivial
  · refine (growing_takeDepthError s).lift.bind fun t1 e s1 _ _ => ?_
    split
    · exact .pure s1 trivial
    · exact Tabled.Keeps.bind (keeps_change s1 fun _ hst => { hst with })
        fun _ _ s2 _ _ => .pure s2 trivial

theorem growing_errorCount : Growing t errorCount := .getThe fun _ _ => .pure s trivial

end State

/-! ### Guards -/

section Guards

theorem safe_functionOf? (s : t.Sound) {type : TypeId} (h : t.Has type) :
    Safe t (functionOf? type) :=
  (safe_evaluateNode s h).bind fun _ _ s1 _ hnode => .pure s1 (below_function? hnode)

theorem safe_unitType? (s : t.Sound) (e : Expr) : Safe t (unitType? e) := by
  unfold unitType?
  split
  · exact (safe_stringLiteral s).map fun _ _ _ _ h => below_some.2 h
  · exact (safe_numberLiteral s _).map fun _ _ _ _ h => below_some.2 h
  · next b _ => cases b <;> exact .pure s (below_some.2 (s.below_fixed rfl))
  · exact (safe_literalType s).map fun _ _ _ _ h => below_some.2 h
  · exact .pure s (below_some.2 (s.below_fixed rfl))
  · exact .pure s (below_some.2 (s.below_fixed rfl))
  · exact .pure s below_none

/-- Type parameters erased to `any`. -/
theorem TypeTable.Sound.below_erased (s : t.Sound) {params : List TypeId} (h : t.Has params) :
    t.Has (ofList (params.map fun p => (p, .any))) :=
  below_ofList (.map fun p hp => ⟨h p hp, s.below_any⟩)

theorem safe_instances? (s : t.Sound) (e : Expr) : Safe t (instances? e) := by
  refine .getThe fun st hst => ?_
  split
  · exact .pure s below_none
  · next type htype =>
    refine (safe_functionOf? s (hst.exprTypes e.id type htype)).lift.bind fun t1 f s1 _ hf => ?_
    split
    · exact .pure s1 below_none
    · next f =>
      have hf : t1.Has f := below_some.1 hf
      split
      · exact (safe_substitute s1 (TypeTable.Sound.below_erased s1 hf.1) hf.2.2.2.1).lift.map
          fun _ _ _ _ h => below_some.2 h
      · exact .pure s1 below_none

theorem safe_predicate? (s : t.Sound) (callee : Expr) : Safe t (predicate? callee) := by
  refine .getThe fun st hst => ?_
  split
  · next p hp => exact .pure s (hp ▸ hst.callPredicates callee.id)
  · split
    · exact .pure s below_none
    · next type htype =>
      refine (safe_functionOf? s (hst.exprTypes callee.id type htype)).lift.bind
        fun t1 f s1 _ hf => .pure s1 fun p hp => ?_
      obtain ⟨f, rfl, hp⟩ := Option.bind_eq_some_iff.1 hp
      exact (below_some.1 hf).2.2.2.2 p hp

theorem safe_guardFacts : guardFacts.Safe where
  unit? e s := (safe_unitType? s e).lift
  instances? e s := safe_instances? s e
  predicate? e s := safe_predicate? s e

theorem growing_guardOf (s : t.Sound) {cond : Expr} : Growing t (guardOf cond) :=
  (Guard.safe_ofCondition safe_guardFacts s).weaken

end Guards

/-! ### Values and targets -/

section Values

variable (s : t.Sound)
variable {target : TypeId}

include s

theorem safe_readonlyView? {member : TypeId} (h : t.Has member) :
    Safe t (readonlyView? member) := by
  refine (safe_evaluateNode s h).bind fun t1 node s1 _ hnode => ?_
  split
  · next o ho =>
    have ho : t1.Has o := below_object? hnode o ho
    refine Tabled.Keeps.map (safe_objectOf s1 ?_ ho.2) fun _ _ _ _ h => below_some.2 h
    exact Bounded.Below.map fun p hp => ho.1 p hp
  · exact .pure s1 below_none

theorem safe_freshView (h : t.Has target) : Safe t (freshView target) := by
  refine (safe_namedMembers s h).bind fun t1 ms s1 r1 hms => ?_
  refine Tabled.Keeps.bind (.mapM s1 fun m hm t2 s2 r2 => ?_) fun t2 views s2 r2 hviews => ?_
  · refine (safe_readonlyView? s2 (r2 (hms m hm))).bind fun t3 view s3 r3 hview => .pure s3 ?_
    exact ⟨(r2.trans r3) (hms m hm), hview⟩
  · split
    · exact safe_unionOf s2 (.map fun p hp => (hviews p hp).2.getD (hviews p hp).1)
    · exact .pure s2 ((r1.trans r2) h)

theorem keeps_reportMismatch {source : TypeId} {note : Option String} {span : Span} :
    Keeps Continues t (reportMismatch source target note span) fun _ _ => True :=
  .readLift s rfl (keeps_report s _)

theorem growing_fits {source view : TypeId} (hsource : t.Has source)
    (hview : t.Has view) {span : Span} : Growing t (fits source view target span) := by
  refine (safe_isSubtype s hsource hview).weaken.lift.bind fun t1 b s1 _ _ => ?_
  split
  · exact .pure s1 trivial
  · refine .readLift s1 rfl ?_
    extract_lets rejected
    split
    · exact .pure s1 trivial
    · exact (keeps_reportMismatch s1).bind
        fun t2 _ s2 _ _ => .pure s2 trivial

theorem growing_valueFits {e : Expr} {source : TypeId} (hsource : t.Has source)
    (htarget : t.Has target) : Growing t (valueFits e source target) := by
  unfold valueFits
  extract_lets against
  split
  · exact (safe_freshView s htarget).weaken.lift.bind fun t1 view s1 g1 hview =>
      growing_fits s1 (g1 hsource) hview
  · exact growing_fits s hsource htarget

theorem keeps_expectNever (e : Expr) {actual : TypeId} (h : t.Has actual) :
    Keeps Continues t (expectNever e actual) fun _ _ => True := by
  refine (safe_evaluateNode s h).weaken.lift.bind fun t1 node s1 g1 _ => ?_
  split
  · exact .pure s1 trivial
  · exact .pure s1 trivial
  · exact (keeps_describeMembers s1 (g1 h)).weaken.lift.bind
      fun t2 texts s2 _ _ => keeps_report s2 _

/-! ### Expected types -/

theorem safe_hasLiteral {type : TypeId} (h : t.Has type) : Safe t (hasLiteral type) := by
  refine (safe_namedMembers s h).bind fun t1 ms s1 _ hms => ?_
  refine Tabled.Keeps.ignore (.anyM s1 fun m hm t2 s2 r2 => ?_)
  exact (safe_evaluateNode s2 (r2 (hms m hm))).bind fun _ _ s3 _ _ => .pure s3 trivial

theorem safe_widenFor {type : TypeId} (h : t.Has type) {expected : Option TypeId}
    (hexpected : t.Has expected) : Safe t (widenFor type expected) := by
  unfold widenFor
  split
  · exact safe_widenLiterals s h
  · refine (safe_hasLiteral s (below_some.1 hexpected)).bind fun t1 b s1 r1 _ => ?_
    split
    · exact .pure s1 (r1 h)
    · exact safe_widenLiterals s1 (r1 h)

theorem safe_expectedObject? {member : TypeId} (h : t.Has member) :
    Safe t (expectedObject? member) := by
  refine (safe_evaluateNode s h).bind fun t1 node s1 _ hnode => ?_
  split
  · exact (safe_evaluateNode s1 (below_some.1 hnode.1)).bind fun _ _ s2 _ hnode =>
      .pure s2 (below_object? hnode)
  · exact .pure s1 (below_object? hnode)

theorem safe_expectedField? {expected : TypeId} (h : t.Has expected) {name : String} :
    Safe t (expectedField? expected name) := by
  refine (safe_namedMembers s h).bind fun t1 ms s1 _ hms => ?_
  refine Tabled.Keeps.bind (.filterMapM s1 fun m hm t2 s2 r2 => ?_) fun t2 found s2 _ hfound => ?_
  · refine (safe_expectedObject? s2 (r2 (hms m hm))).bind fun t3 o s3 _ ho => .pure s3 ?_
    intro id hid
    obtain ⟨o, rfl, hid⟩ := Option.bind_eq_some_iff.1 hid
    exact below_read? (below_some.1 ho) id hid
  · split
    · exact .pure s2 below_none
    · exact (safe_unionOf s2 hfound).map fun _ _ _ _ h => below_some.2 h

theorem safe_typeofResult : Safe t typeofResult :=
  Tabled.Keeps.bind (.mapM s fun _ _ _ s1 _ => safe_stringLiteral s1)
    fun _ _ s1 _ hids => safe_unionOf s1 hids

theorem safe_arithmeticResult {left right : TypeId} (hleft : t.Has left)
    (hright : t.Has right) (isAddition : Bool) :
    Safe t (arithmeticResult left right isAddition) := by
  refine (safe_evaluate s hleft).bind fun t1 left s1 r1 _ => ?_
  refine (safe_evaluate s1 (r1 hright)).bind fun t2 right s2 _ _ => .read rfl (.read rfl ?_)
  split
  · exact .pure s2 s2.below_any
  split
  · exact .pure s2 (s2.below_fixed rfl)
  split
  · exact .pure s2 (s2.below_fixed rfl)
  · exact .pure s2 (s2.below_fixed rfl)

end Values

/-! ### Members and elements -/

section Access

theorem safe_mapWhole {α β : Type} [Bounded β] {f : α → TableM (Option β)} {as : List α}
    (s : t.Sound) (h : ∀ a ∈ as, ∀ t', t'.Sound → t.Runs t' → Safe t' (f a)) :
    Safe t (mapWhole f as) := by
  induction as generalizing t with
  | nil => exact .pure s (below_some.2 below_nil)
  | cons a as ih =>
    refine (h a (.head _) t s (.refl t)).bind fun t1 b s1 r1 hb => ?_
    split
    · exact .pure s1 below_none
    · next b =>
      refine (ih s1 fun a' ha' t' s' r' => h a' (.tail _ ha') t' s' (r1.trans r')).bind
        fun t2 bs s2 r2 hbs => .pure s2 ?_
      exact below_map_option hbs fun l hl => below_cons.2 ⟨r2 (below_some.1 hb), hl⟩

theorem safe_propertyWithin (s : t.Sound) {fuel : Nat} {type : TypeId} (h : t.Has type)
    {name : String} : Safe t (propertyWithin fuel type name) := by
  induction fuel generalizing t type with
  | zero => exact .pure s below_none
  | succ fuel ih =>
    refine (safe_evaluate s h).bind fun t1 evaluated s1 r1 hevaluated => .read rfl ?_
    have builtin := safe_builtinMember? s1 hevaluated name
    split
    · exact .pure s1 (below_some.2 s1.below_any)
    · exact .pure s1 below_none
    · exact .pure s1 (below_some.2 s1.below_never)
    · refine (safe_namedMembers s1 (r1 h)).bind fun t2 ms s2 _ hms => ?_
      refine (safe_mapWhole s2 fun m hm t3 s3 r3 => ih s3 (r3 (hms m hm))).bind
        fun t3 found s3 _ hfound => ?_
      split
      · exact (safe_unionOf s3 (below_some.1 hfound)).map fun _ _ _ _ h => below_some.2 h
      · exact .pure s3 below_none
    · next ms hms =>
      exact .findSomeM? s1 fun m hm t2 s2 r2 => ih s2 (r2 (s1.below_node hms m hm))
    · next p hp =>
      have hp : t1.Has p := s1.below_node hp
      split
      · next bound hbound => exact ih s1 (hp.1 bound hbound)
      · exact .pure s1 below_none
    · next o ho =>
      have ho : t1.Has o := s1.below_node ho
      split
      · next p hp =>
        have hp : t1.Has p.type := below_property? ho p hp
        split
        · exact (safe_unionOf s1 (below_pair.2 ⟨hp, s1.below_fixed rfl⟩)).map fun _ _ _ _ h =>
            below_some.2 h
        · exact .pure s1 (below_some.2 hp)
      · split
        · next index hindex => exact .pure s1 (hindex ▸ ho.2)
        · exact builtin
    · exact builtin

theorem growing_propertyType (s : t.Sound) {type : TypeId} (h : t.Has type) {name : String}
    {span : Span} : Growing t (propertyType type name span) := by
  refine (safe_propertyWithin s h).weaken.lift.bind
    fun t1 found s1 _ hfound => ?_
  split
  · exact .pure s1 (below_some.1 hfound)
  · refine .readLift s1 rfl ?_
    exact (keeps_report s1 _).bind fun _ _ s2 _ _ => .pure s2 s2.below_any

theorem growing_indexedType (s : t.Sound) {type : TypeId} (h : t.Has type) {index : TypeId}
    (span : Span) : Growing t (indexedType type index span) := by
  refine (safe_evaluateNode s h).weaken.lift.bind fun t1 node s1 g1 hnode => .readLift s1 rfl ?_
  dsimp only
  split
  · exact .pure s1 s1.below_any
  · exact .pure s1 hnode
  · split
    · exact .pure s1 (below_select s1 hnode _)
    · exact (safe_unionOf s1 (below_types hnode)).weaken.lift
  · exact (safe_unionOf s1 (below_types hnode)).weaken.lift
  · exact growing_propertyType s1 (g1 h)
  · exact .pure s1 (hnode.2.getD s1.below_any)
  · exact .pure s1 s1.below_any

end Access

end Checking

/-! ### Calls -/

theorem Signature.safe_instantiate (s : t.Sound) {f : Signature} {σ : Substitution}
    (hf : t.Has f) (hσ : t.Has σ) : Safe t (f.instantiate σ) := by
  refine Tabled.Keeps.bind (.mapM s fun p hp t1 s1 r1 => ?_) fun t1 params s1 r1 hparams => ?_
  · exact (safe_substitute s1 (r1 hσ) (r1 (hf.2.1 p hp))).bind
      fun _ _ s2 _ htype => .pure s2 htype
  refine Tabled.Keeps.bind (.mapOption s1 fun id hid => ?_) fun t2 rest s2 r2 hrest => ?_
  · exact safe_substitute s1 (r1 hσ) (r1 (hf.2.2.1 id hid))
  have r2' := r1.trans r2
  refine (safe_substitute s2 (r2' hσ) (r2' hf.2.2.2.1)).bind
    fun t3 result s3 r3 hresult => ?_
  have r3' := r2'.trans r3
  refine Tabled.Keeps.bind (.mapOption s3 fun p hp => ?_) fun t4 predicate s4 r4 hpredicate => ?_
  · exact (safe_substitute s3 (r3' hσ) (r3' (hf.2.2.2.2 p hp))).bind
      fun _ _ s4 _ htype => .pure s4 htype
  · exact .pure s4 ⟨below_nil, (r2.trans (r3.trans r4)) hparams, (r3.trans r4) hrest,
      r4 hresult, hpredicate⟩

namespace Checking

variable {span : Span} {f : Signature}

theorem safe_explicitArguments (s : t.Sound) {params args : List TypeId} {σ : Substitution}
    (hparams : t.Has params) (hargs : t.Has args) (hσ : t.Has σ) :
    Safe t (explicitArguments params args σ) := by
  induction params generalizing t args σ with
  | nil => exact .pure s hσ
  | cons param params ih =>
    obtain ⟨hparam, hparams⟩ := below_cons.1 hparams
    unfold explicitArguments
    extract_lets next
    have next_safe : ∀ t1 arg, t1.Sound → t.Runs t1 → t1.Has arg → Safe t1 (next arg) :=
      fun t1 arg s1 r1 harg => ih s1 (r1 hparams) (r1 hargs.tail)
        (below_insert (r1 hσ) (r1 hparam) harg)
    split
    · exact next_safe t _ s (.refl t) (below_cons.1 hargs).1
    · refine .read rfl ?_
      refine (safe_substitute s hσ (Bounded.Below.getD ?_ s.below_unknown)).bind
        fun t1 arg s1 r1 harg => next_safe t1 arg s1 r1 harg
      intro id hid
      obtain ⟨p, hp, hid⟩ := Option.bind_eq_some_iff.1 hid
      exact (s.below_param? param p hp).2 id hid

theorem keeps_checkBounds (s : t.Sound) {σ : Substitution} (hσ : t.Has σ)
    {param : TypeId} : Keeps Continues t (checkBounds σ span param) fun _ _ => True := by
  refine .readLift s rfl ?_
  split
  · next p hp =>
    split
    · next bound arg heq =>
      obtain ⟨hbound, harg⟩ := Prod.mk.inj heq
      have hp : t.Has p := s.below_param? param p hp
      refine (safe_substitute s hσ (hp.1 bound hbound)).weaken.lift.bind
        fun t1 bound s1 g1 hbound => ?_
      refine (safe_isSubtype s1 (g1 (below_get? hσ param arg harg))
        hbound).weaken.lift.bind fun t2 b s2 _ _ => ?_
      split
      · exact .pure s2 trivial
      · exact .readLift s2 rfl (keeps_report s2 _)
    · exact .pure s trivial
  · exact .pure s trivial

theorem growing_instantiateExplicit (s : t.Sound) {args : List TypeId}
    (hf : t.Has f) (hargs : t.Has args) {callee : Expr} :
    Growing t (instantiateExplicit f args callee span) := by
  refine .readLift s rfl ?_
  extract_lets required
  split
  · refine (keeps_report s _).bind fun t1 _ s1 g1 _ => ?_
    exact (Signature.safe_instantiate s1 (g1 hf)
      (TypeTable.Sound.below_erased s1 (g1 hf.1))).weaken.lift
  · refine (safe_explicitArguments s hf.1 hargs below_empty).weaken.lift.bind
      fun t1 σ s1 g1 hσ => ?_
    refine Tabled.Keeps.bind (.forM s1 fun param _ t2 s2 g2 => ?_) fun t2 _ s2 g2 _ => ?_
    · exact keeps_checkBounds s2 (g2 hσ)
    · exact (Signature.safe_instantiate s2 ((g1.trans g2) hf) (g2 hσ)).weaken.lift

theorem safe_partialArguments (s : t.Sound) {argTypes : List (Option TypeId)}
    (hf : t.Has f) (hargs : t.Has argTypes) : Safe t (partialArguments f argTypes) := by
  refine .read rfl ?_
  refine (Inference.safe_start s hf.1).bind fun t1 start s1 r1 hstart => ?_
  extract_lets pairs
  have hpairs : t1.Has pairs := by
    refine Bounded.Below.filterMap fun p hp q hq => ?_
    have hp := hargs p.2 (of_mem_zip hp).2
    dsimp only at hq
    split at hq
    · next type param htype hparam =>
      exact Option.some.inj hq ▸ ⟨r1 (below_paramAt? hf p.1 param hparam),
        r1 (hp type htype)⟩
    · cases hq
  refine ((Inference.safe_inferAll (safe_operations t) s1 hpairs).run hstart).bind
    fun t2 p s2 _ hp => ?_
  exact Inference.safe_partialSolution (safe_operations t) s2 hp.2

theorem growing_instantiateInferred (s : t.Sound) {argTypes : List TypeId}
    (hf : t.Has f) (hargs : t.Has argTypes) : Growing t (instantiateInferred f argTypes span) := by
  refine (safe_inferCall s hf hargs).weaken.lift.bind fun t1 solution s1 g1 hsolution =>
    .readLift s1 rfl ?_
  refine Tabled.Keeps.bind (.forM s1 fun _ _ t2 s2 _ => keeps_report s2 _)
    fun t2 _ s2 g2 _ => ?_
  exact (Signature.safe_instantiate s2 ((g1.trans g2) hf)
    (g2 hsolution.1)).weaken.lift

end Checking

end GradualTyping
