/-
# Lowering is safe

A written type reads as a type of the table that lowering leaves, whatever names it
mentions: an undeclared one reads as `any`.  Lowering runs on the table; only the
declarations of a block change aliases.

The induction is on the written type, one lemma for each kind of part.
-/

import GradualTyping.Lowering
import GradualTyping.Proofs.Sound.Layers

namespace GradualTyping

open TypeTable

instance : Bounded LowerState :=
  ⟨fun n st => Below n st.scopes ∧ ∀ name, Below n (st.valueOf name),
    fun h => .imp (Bounded.mono h) fun hv name => Bounded.mono h (hv name)⟩

namespace Lowering

variable {t : TypeTable}
variable {name : String}

/-! ### Names -/

theorem safe_problem (s : t.Sound) (p : Problem) : Safe t (problem p) :=
  Tabled.Keeps.bind (.modifyThe s fun _ h => h) fun _ _ s1 _ _ => .pure s1 s1.below_any

theorem safe_typeNamed? (s : t.Sound) : Safe t (typeNamed? name) :=
  .getThe fun _ hst => .pure s (.findSome? fun _ hscope => (hst.1 _ hscope).lookup name)

theorem keeps_setSpan {ρ : TypeTable → TypeTable → Prop} [Along ρ] (s : t.Sound) {span : Span} :
    Keeps ρ t (setSpan span) fun _ _ => True :=
  .modifyThe s fun _ h => h

theorem keeps_bind {ρ : TypeTable → TypeTable → Prop} [Along ρ] (s : t.Sound) (name : String)
    {id : TypeId} (h : t.Has id) : Keeps ρ t (bind name id) fun _ _ => True := by
  refine .modifyThe s fun st hst => ?_
  split
  · exact ⟨below_singleton.2 (below_singleton.2 ⟨trivial, h⟩), hst.2⟩
  · next scope scopes hs =>
    have hst' := hst.1
    rw [hs] at hst'
    obtain ⟨hscope, hscopes⟩ := below_cons.1 hst'
    exact ⟨below_cons.2 ⟨below_cons.2 ⟨⟨trivial, h⟩, hscope⟩, hscopes⟩, hst.2⟩

theorem keeps_declareValue {ρ : TypeTable → TypeTable → Prop} [Along ρ] (s : t.Sound)
    {id : TypeId} (h : t.Has id) : Keeps ρ t (declareValue name id) fun _ _ => True := by
  refine .modifyThe s fun st hst => ⟨hst.1, fun n => ?_⟩
  dsimp only
  split
  · exact below_some.2 h
  · exact hst.2 n

/-- A scope of its own around an operation. -/
theorem keeps_withScope {ρ : TypeTable → TypeTable → Prop} [Along ρ] {α : Type} [Bounded α]
    {body : LowerM α} (s : t.Sound)
    (h : ∀ t', t'.Sound → ρ t t' → Keeps ρ t' body fun t'' a => t''.Has a) :
    Keeps ρ t (withScope body) fun t' a => t'.Has a := by
  refine Tabled.Keeps.bind (.modifyThe s fun st hst => ⟨below_cons.2 ⟨below_nil, hst.1⟩, hst.2⟩)
    fun t1 _ s1 r1 _ => ?_
  refine (h t1 s1 r1).bind fun t2 a s2 _ ha => ?_
  refine Tabled.Keeps.bind (Q := fun t' _ => t' = t2) ?_ fun t3 _ s3 _ e => .pure s3 (e ▸ ha)
  exact fun st hst => ⟨s2, Along.refl t2, rfl, hst.1.tail, hst.2⟩

theorem below_keyword? (s : t.Sound) : t.Has (keyword? name) := by
  unfold keyword?
  split <;> first | exact below_none | exact below_some.2 (s.below_fixed rfl)

theorem safe_bareName? (s : t.Sound) : Safe t (bareName? name) := by
  refine (safe_typeNamed? s).bind fun t1 found s1 _ hfound => ?_
  split
  · exact .pure s1 hfound
  · split
    · next id hid => exact .pure s1 (hid ▸ below_keyword? s1)
    · split
      · exact (safe_objectOf s1 below_nil below_none).lift.map fun _ _ _ _ h => below_some.2 h
      · exact .pure s1 below_none

theorem safe_applyName (s : t.Sound) {args : List TypeId}
    (h : t.Has args) : Safe t (applyName name args) := by
  unfold applyName
  refine .readLift s rfl ?_
  split
  · refine (safe_instantiateAlias s h).runExcept.lift.bind fun t1 r s1 _ hr => ?_
    split
    · exact .pure s1 (hr _ rfl)
    · exact safe_problem s1 _
  · split
    · next build hbuild =>
      split
      · next arg =>
        have harg := (below_cons.1 h).1
        unfold container? at hbuild
        split at hbuild
        · exact Option.some.inj hbuild ▸ (safe_promiseOf s harg).lift
        · split at hbuild
          · exact Option.some.inj hbuild ▸ (safe_arrayOf s harg).lift
          · cases hbuild
      · exact safe_problem s _
    · split
      · split
        · exact (safe_referenceTo s h).lift
        · exact safe_problem s _
      · exact safe_problem s _

theorem safe_restElement (s : t.Sound) {type : TypeId} (h : t.Has type) :
    Safe t (restElement type) := by
  refine .read rfl ?_
  split
  · next e he => exact .pure s (s.below_node he)
  · exact .pure s s.below_any
  · exact safe_intern s ⟨h, s.below_fixed rfl⟩ trivial rfl

/-! ### Written types

The induction is on the written type and the lists, options and records inside it. -/

theorem safe_lowerTypeParams_of {ps : List (TypeParamDecl TypeExpr)} (s : t.Sound)
    (h : ∀ scope t', t'.Sound → Safe t' (lowerTypeParamsIn scope ps)) :
    Safe t (lowerTypeParams ps) := by
  cases ps with
  | nil =>
    unfold lowerTypeParams
    exact .pure s below_nil
  | cons p ps =>
    unfold lowerTypeParams
    exact (safe_freshScope s).lift.bind fun t1 scope s1 _ _ => h scope t1 s1

mutual

theorem safe_lower (e : TypeExpr) {t : TypeTable} (s : t.Sound) : Safe t (lower e) := by
  cases e with
  | named name args =>
    unfold lower
    refine Tabled.Keeps.bind (Q := fun t' o => t'.Has o) ?_ fun t1 o s1 _ ho => ?_
    · split
      · exact safe_bareName? s
      · exact .pure s below_none
    · split
      · exact .pure s1 (below_some.1 ho)
      · exact (safe_lowerList args s1).bind fun t2 ids s2 _ hids => safe_applyName s2 hids
  | stringLit value =>
    unfold lower
    exact (safe_stringLiteral s).lift
  | numberLit value =>
    unfold lower
    exact (safe_numberLiteral s value).lift
  | boolLit value =>
    unfold lower
    cases value <;> exact .pure s (s.below_fixed rfl)
  | object properties index =>
    unfold lower
    refine (safe_lowerProperties properties s).bind fun t1 ps s1 _ hps => ?_
    refine (safe_lowerOption index s1).bind fun t2 index s2 r2 hindex => ?_
    exact (safe_objectOf s2 (r2 hps) hindex).lift
  | array element =>
    unfold lower
    exact (safe_lower element s).bind fun t1 e s1 _ he => (safe_arrayOf s1 he).lift
  | tuple elements rest =>
    unfold lower
    refine (safe_lowerElements elements s).bind fun t1 es s1 _ hes => ?_
    refine (safe_lowerOption rest s1).bind fun t2 rest s2 r2 hrest => ?_
    exact (safe_tupleOf s2 (r2 hes) hrest).lift
  | function f =>
    obtain ⟨typeParams, params, rest, result, predicate, construct⟩ := f
    unfold lower
    refine Tabled.Keeps.bind (keeps_withScope s fun t1 s1 _ => ?_)
      fun t1 f s1 _ hf => (safe_functionOf s1 hf).lift
    refine (safe_lowerTypeParams_of s1 fun scope _ s' =>
      safe_lowerTypeParamsIn scope typeParams s').bind fun t2 typeParams s2 _ htypeParams => ?_
    refine (safe_lowerParams params s2).bind fun t3 ps s3 r3 hps => ?_
    refine (safe_lowerRest rest s3).bind fun t4 rest s4 r4 hrest => ?_
    refine (safe_lower result s4).bind fun t5 result s5 r5 hresult => ?_
    refine (safe_lowerPredicate _ predicate s5).bind fun t6 predicate s6 r6 hpredicate => ?_
    exact .pure s6 ⟨((r3.trans r4).trans (r5.trans r6)).below htypeParams,
      (r4.trans (r5.trans r6)) hps, (r5.trans r6) hrest, r6 hresult, hpredicate⟩
  | union members =>
    unfold lower
    exact (safe_lowerList members s).bind fun t1 ms s1 _ hms => (safe_unionOf s1 hms).lift
  | intersection members =>
    unfold lower
    exact (safe_lowerList members s).bind fun t1 ms s1 _ hms => (safe_intersectionOf s1 hms).lift
  | conditional check pattern yes no =>
    unfold lower
    refine (safe_lower check s).bind fun t1 check s1 _ hcheck => .readLift s1 rfl ?_
    refine Tabled.Keeps.bind (Q := fun t' p => t'.Has p) (keeps_withScope s1 ?_)
      fun t2 p s2 r2 hp => ?_
    · intro t2 s2 _
      refine Tabled.Keeps.bind (.forIn s2 fun name _ t3 s3 _ => ?_) fun t3 _ s3 _ _ => ?_
      · refine Tabled.Keeps.bind (.lift (safe_intern s3 trivial trivial rfl)) fun t4 id s4 _ hid => ?_
        exact (keeps_bind s4 name hid).bind fun t5 _ s5 _ _ => .pure s5 trivial
      · refine (safe_lower pattern s3).bind fun t4 pattern s4 _ hpattern => ?_
        refine (safe_lower yes s4).bind fun t5 yes s5 r5 hyes => .pure s5 ?_
        exact ⟨r5 hpattern, hyes⟩
    · refine (safe_lower no s2).bind fun t3 no s3 r3 hno => ?_
      exact (safe_conditional s3 ⟨(r2.trans r3) hcheck, r3 hp.1, r3 hp.2,
        hno⟩).lift
  | infer name =>
    unfold lower
    exact .lift (safe_intern s trivial trivial rfl)
  | mapped param keys value readonly optional =>
    unfold lower
    refine (safe_lower keys s).bind fun t1 keys s1 _ hkeys => ?_
    refine (safe_freshScope s1).lift.bind fun t2 scope s2 r2 _ => ?_
    refine (safe_param s2 ⟨below_none, below_none⟩).lift.bind fun t3 param s3 r3 hparam => ?_
    refine Tabled.Keeps.bind (keeps_withScope s3 fun t4 s4 r4 => ?_) fun t4 value s4 r4 hvalue => ?_
    · exact (keeps_bind s4 _ (r4 hparam)).bind fun t5 _ s5 _ _ => safe_lower value s5
    · exact .lift (safe_intern s4 ⟨r4 hparam, (r2.trans (r3.trans r4)) hkeys, hvalue⟩
        trivial rfl)
  | keyOf operand =>
    unfold lower
    exact (safe_lower operand s).bind fun t1 operand s1 _ h => (safe_keyOf s1 h).lift
  | indexed base key =>
    unfold lower
    refine (safe_lower base s).bind fun t1 base s1 _ hbase => ?_
    refine (safe_lower key s1).bind fun t2 key s2 r2 hkey => ?_
    exact .lift (safe_intern s2 ⟨r2 hbase, hkey⟩ trivial rfl)
  | template parts =>
    unfold lower
    exact (safe_lowerParts parts s).bind fun t1 parts s1 _ h => (safe_templateOf s1 h).lift
  | typeOf name =>
    unfold lower
    refine .getThe fun st hst => ?_
    split
    · next id hid => exact .pure s (hst.2 name id hid)
    · exact safe_problem s _

theorem safe_lowerList (es : List TypeExpr) {t : TypeTable} (s : t.Sound) :
    Safe t (lowerList es) := by
  cases es with
  | nil =>
    unfold lowerList
    exact .pure s below_nil
  | cons e es =>
    unfold lowerList
    refine (safe_lower e s).bind fun t1 id s1 _ hid => ?_
    refine (safe_lowerList es s1).bind fun t2 ids s2 r2 hids => .pure s2 ?_
    exact below_cons.2 ⟨r2 hid, hids⟩

theorem safe_lowerOption (e : Option TypeExpr) {t : TypeTable} (s : t.Sound) :
    Safe t (lowerOption e) := by
  cases e with
  | none =>
    unfold lowerOption
    exact .pure s below_none
  | some e =>
    unfold lowerOption
    exact (safe_lower e s).bind fun t1 id s1 _ hid => .pure s1 (below_some.2 hid)

theorem safe_lowerProperties (ps : List (PropertyDecl TypeExpr)) {t : TypeTable} (s : t.Sound) :
    Safe t (lowerProperties ps) := by
  cases ps with
  | nil =>
    unfold lowerProperties
    exact .pure s below_nil
  | cons p ps =>
    obtain ⟨name, type, optional, readonly⟩ := p
    unfold lowerProperties
    refine (safe_lower type s).bind fun t1 id s1 _ hid => ?_
    refine (safe_lowerProperties ps s1).bind fun t2 ids s2 r2 hids => .pure s2 ?_
    exact below_cons.2 ⟨r2 hid, hids⟩

theorem safe_lowerElements (es : List (TupleElementDecl TypeExpr)) {t : TypeTable} (s : t.Sound) :
    Safe t (lowerElements es) := by
  cases es with
  | nil =>
    unfold lowerElements
    exact .pure s below_nil
  | cons e es =>
    obtain ⟨type, optional⟩ := e
    unfold lowerElements
    refine (safe_lower type s).bind fun t1 id s1 _ hid => ?_
    refine (safe_lowerElements es s1).bind fun t2 ids s2 r2 hids => .pure s2 ?_
    exact below_cons.2 ⟨r2 hid, hids⟩

theorem safe_lowerParts (ps : List (TemplatePart TypeExpr)) {t : TypeTable} (s : t.Sound) :
    Safe t (lowerParts ps) := by
  cases ps with
  | nil =>
    unfold lowerParts
    exact .pure s below_nil
  | cons p ps =>
    cases p with
    | text value =>
      unfold lowerParts
      refine (safe_lowerParts ps s).bind fun t1 spans s1 _ h => .pure s1 ?_
      exact below_cons.2 ⟨below_text, h⟩
    | embedded type =>
      unfold lowerParts
      refine (safe_lower type s).bind fun t1 id s1 _ hid => ?_
      refine (safe_lowerParts ps s1).bind fun t2 spans s2 r2 hspans => .pure s2 ?_
      exact below_cons.2 ⟨below_hole.2 (r2 hid), hspans⟩

theorem safe_lowerTypeParamsIn (scope : Nat) (ps : List (TypeParamDecl TypeExpr)) {t : TypeTable}
    (s : t.Sound) : Safe t (lowerTypeParamsIn scope ps) := by
  cases ps with
  | nil =>
    unfold lowerTypeParamsIn
    exact .pure s below_nil
  | cons p ps =>
    obtain ⟨name, bound, fallback, variance⟩ := p
    unfold lowerTypeParamsIn
    refine (safe_lowerOption bound s).bind fun t1 bound s1 _ hbound => ?_
    refine (safe_lowerOption fallback s1).bind fun t2 fallback s2 r2 hfallback => ?_
    refine (safe_param s2 ⟨r2 hbound, hfallback⟩).lift.bind fun t3 id s3 _ hid => ?_
    refine (keeps_bind s3 name hid).bind fun t4 _ s4 r4 _ => ?_
    refine (safe_lowerTypeParamsIn scope ps s4).bind fun t5 ids s5 r5 hids => .pure s5 ?_
    exact below_cons.2 ⟨(r4.trans r5) hid, hids⟩

theorem safe_lowerParams (ps : List (ParamDecl TypeExpr)) {t : TypeTable} (s : t.Sound) :
    Safe t (lowerParams ps) := by
  cases ps with
  | nil =>
    unfold lowerParams
    exact .pure s below_nil
  | cons p ps =>
    obtain ⟨name, type, optional, span⟩ := p
    unfold lowerParams
    refine (safe_lowerOption type s).bind fun t1 id s1 _ hid => ?_
    refine (safe_lowerParams ps s1).bind fun t2 params s2 r2 hparams => .pure s2 ?_
    exact below_cons.2 ⟨(r2 hid).getD s2.below_any, hparams⟩

theorem safe_lowerRest (rest : Option (ParamDecl TypeExpr)) {t : TypeTable} (s : t.Sound) :
    Safe t (lowerRest rest) := by
  match rest with
  | none =>
    unfold lowerRest
    exact .pure s below_none
  | some ⟨name, none, optional, span⟩ =>
    unfold lowerRest
    exact .pure s (below_some.2 s.below_any)
  | some ⟨name, some type, optional, span⟩ =>
    unfold lowerRest
    refine (safe_lower type s).bind fun t1 id s1 _ hid => ?_
    exact (safe_restElement s1 hid).lift.bind fun t2 e s2 _ he => .pure s2 (below_some.2 he)

theorem safe_lowerPredicate (names : List String) (predicate : Option (PredicateDecl TypeExpr))
    {t : TypeTable} (s : t.Sound) : Safe t (lowerPredicate names predicate) := by
  match predicate with
  | none =>
    unfold lowerPredicate
    exact .pure s below_none
  | some ⟨param, type, asserts⟩ =>
    unfold lowerPredicate
    split
    · exact .pure s below_none
    · exact (safe_lower type s).bind fun t1 id s1 _ hid => .pure s1 (below_some.2 hid)

end

section

variable (s : t.Sound)
include s

theorem safe_lowerTypeParams {ps : List (TypeParamDecl TypeExpr)} : Safe t (lowerTypeParams ps) :=
  safe_lowerTypeParams_of s fun scope _ s' => safe_lowerTypeParamsIn scope ps s'

theorem safe_lowerSignature {σ : Type} (f : FunctionDecl σ) : Safe t (lowerSignature f) := by
  refine keeps_withScope s fun t0 s0 _ => ?_
  refine (safe_lowerTypeParams s0).bind fun t1 typeParams s1 _ htypeParams => ?_
  refine (safe_lowerParams f.params s1).bind fun t2 params s2 r2 hparams => ?_
  refine (safe_lowerRest f.rest s2).bind fun t3 rest s3 r3 hrest => ?_
  refine (safe_lowerPredicate _ f.predicate s3).bind fun t4 predicate s4 r4 hpredicate => ?_
  extract_lets finish
  have finish_safe : ∀ t5 result, t5.Sound → t4.Runs t5 → t5.Has result →
      Safe t5 (finish result) := fun t5 result s5 r5 hresult =>
    .pure s5 ⟨((r2.trans r3).trans (r4.trans r5)).below htypeParams,
      (r3.trans (r4.trans r5)) hparams, (r4.trans r5) hrest, hresult,
      r5 hpredicate⟩
  split
  · exact (safe_lower _ s4).bind fun t5 result s5 r5 h => finish_safe t5 result s5 r5 h
  · refine finish_safe t4 _ s4 (.refl t4) ?_
    split <;> exact s4.below_fixed rfl
  · exact finish_safe t4 _ s4 (.refl t4) s4.below_any

/-! ### Declarations of a block -/

theorem growing_declareName (st : Stmt) : Growing t (declareName st) := by
  unfold declareName
  split
  · next name decls _ =>
    refine (safe_freshScope s).weaken.lift.bind fun t1 scope s1 _ _ => ?_
    refine Tabled.Keeps.bind (.mapM s1 fun d _ t2 s2 _ => .weaken (.lift (safe_param s2 ?_)))
      fun t2 params s2 _ hparams => ?_
    · refine ⟨below_none, ?_⟩
      dsimp only
      cases d.fallback with
      | none => exact below_none
      | some _ => exact below_some.2 s2.below_unknown
    · exact (growing_declareAlias s2 hparams).lift.bind fun t3 _ s3 _ _ => .pure s3 trivial
  · exact .pure s trivial

theorem growing_declareParams (st : Stmt) : Growing t (declareParams st) := by
  unfold declareParams
  split
  · exact .pure s below_none
  · next name decls _ =>
    refine (keeps_setSpan s).bind fun t1 _ s1 _ _ => ?_
    refine Tabled.Keeps.bind
      (keeps_withScope s1 fun t2 s2 _ => (safe_lowerTypeParams s2).weaken)
      fun t2 ids s2 _ hids => ?_
    refine (growing_declareAlias s2 hids).lift.bind fun t3 _ s3 g3 _ => .pure s3 ?_
    refine below_some.2 ⟨trivial, fun p hp => ?_⟩
    exact ⟨trivial, g3 (hids _ (List.of_mem_zip hp).2)⟩

theorem growing_declareFunction (st : Stmt) : Growing t (declareFunction st) := by
  unfold declareFunction
  split
  · next f _ =>
    refine (keeps_setSpan s).bind fun t1 _ s1 _ _ => ?_
    refine (safe_lowerSignature s1 f).weaken.bind fun t2 f' s2 _ hf => ?_
    refine (safe_functionOf s2 hf).weaken.lift.bind fun t3 type s3 _ htype => ?_
    refine (keeps_declareValue s3 htype).bind fun t4 _ s4 r4 _ => .pure s4 ?_
    exact below_some.2 ⟨trivial, r4 htype⟩
  · exact .pure s below_none

theorem safe_lowerClass (c : Class) {params : TypeScope} (h : t.Has params) :
    Safe t (lowerClass c params) := by
  unfold lowerClass
  refine Tabled.Keeps.bind (.mapM s fun f _ t1 s1 _ => ?_) fun t1 fields s1 r1 hfields => ?_
  · exact (safe_lower f.type s1).bind fun t2 id s2 _ hid => .pure s2 hid
  refine Tabled.Keeps.bind (.mapM s1 fun f _ t2 s2 _ => ?_) fun t2 methods s2 r2 hmethods => ?_
  · refine (safe_lowerSignature s2 f).bind fun t3 f' s3 _ hf => ?_
    exact (safe_functionOf s3 hf).lift.bind fun t4 id s4 _ hid => .pure s4 hid
  refine (safe_objectOf s2 (below_append.2 ⟨r2 hfields, hmethods⟩) below_none).lift.bind
    fun t3 instances s3 r3 hinstances => ?_
  have hids : t3.Has (params.map (·.2)) :=
    Bounded.Below.map fun p hp => ((r1.trans (r2.trans r3)) h p hp).2
  refine (safe_lowerParams _ s3).bind fun t4 constructorParams s4 r4 hparams => ?_
  refine (safe_referenceTo s4 (r4 hids)).lift.bind fun t5 result s5 r5 hresult => ?_
  refine (safe_functionOf s5 ⟨(r4.trans r5) hids, r5 hparams, below_none, hresult,
    below_none⟩).lift.bind fun t6 constructor s6 r6 hconstructor => .pure s6 ?_
  exact ⟨(r4.trans (r5.trans r6)) hinstances, hconstructor⟩

theorem safe_lowerBody (st : Stmt) {params : TypeScope} (h : t.Has params) :
    Safe t (lowerBody st params) := by
  unfold lowerBody
  split
  · exact (safe_lower _ s).bind fun t1 id s1 _ hid => .pure s1 ⟨hid, below_none⟩
  · refine (safe_lowerList _ s).bind fun t1 extended s1 _ hextended => ?_
    refine (safe_lowerProperties _ s1).bind fun t2 members s2 r2 hmembers => ?_
    refine (safe_objectOf s2 hmembers below_none).lift.bind fun t3 own s3 r3 hown => ?_
    refine (safe_intersectionOf s3 (below_append.2 ⟨(r2.trans r3) hextended,
      below_singleton.2 hown⟩)).lift.bind fun t4 id s4 _ hid => .pure s4 ?_
    exact ⟨hid, below_none⟩
  · next c _ =>
    refine (safe_lowerClass s c h).bind fun t1 p s1 _ hp => ?_
    refine (keeps_declareValue s1 hp.2).bind fun t2 _ s2 r2 _ => .pure s2 ?_
    exact ⟨r2 hp.1, below_some.2 ⟨trivial, r2 hp.2⟩⟩
  · exact .pure s ⟨s.below_any, below_none⟩

theorem growing_declareBody {params : List (String × TypeScope)}
    (h : t.Has params) (st : Stmt) : Growing t (declareBody params st) := by
  unfold declareBody
  refine (keeps_setSpan s).bind fun t1 _ s1 g1 _ => ?_
  split
  · exact .pure s1 below_none
  · next name _ _ =>
    extract_lets own
    have hown : t1.Has own :=
      have hreversed := (g1 h).subset fun _ => List.mem_reverse.1
      Bounded.Below.getD (Bounded.Below.lookup hreversed name) below_nil
    refine Tabled.Keeps.bind (keeps_withScope s1 fun t2 s2 g2 => ?_) fun t2 p s2 g2 hp => ?_
    · refine Tabled.Keeps.bind (.forM s2 fun p hp t3 s3 g3 => ?_) fun t3 _ s3 g3 _ => ?_
      · exact keeps_bind s3 p.1 ((g2.trans g3) (hown p hp)).2
      · exact (safe_lowerBody s3 st ((g2.trans g3) hown)).weaken
    · refine (growing_defineAlias s2 hp.1).runExcept.lift.bind fun t3 r s3 g3 _ => ?_
      split
      · exact .pure s3 (g3 hp.2)
      · refine (safe_problem s3 _).weaken.bind fun t4 _ s4 g4 _ => .pure s4 ?_
        exact (g3.trans g4) hp.2

/-- **Entering the declarations of a block grows the table.** -/
theorem growing_declareBlock {block : List Stmt} : Growing t (declareBlock block) := by
  refine Tabled.Keeps.bind (.forM s fun st _ t1 s1 _ => ?_) fun t1 _ s1 _ _ => ?_
  · exact (growing_declareName s1 st).ignore
  refine Tabled.Keeps.bind (.filterMapM s1 fun st _ t2 s2 _ => growing_declareParams s2 st)
    fun t2 params s2 _ hparams => ?_
  refine Tabled.Keeps.bind (.filterMapM s2 fun st _ t3 s3 _ => growing_declareFunction s3 st)
    fun t3 functions s3 g3 hfunctions => ?_
  refine Tabled.Keeps.bind
    (.filterMapM s3 fun st _ t4 s4 g4 => growing_declareBody s4 ((g3.trans g4) hparams) st)
    fun t4 classes s4 g4 hclasses => .pure s4 ?_
  exact below_append.2 ⟨g4 hfunctions, hclasses⟩

end

end Lowering

end GradualTyping
