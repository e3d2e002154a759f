/-
# Following a variable through statements

A statement comes back to the point where it starts, with the environments of its breaks
put aside, unless it enters the name: declarations stay inside the scope of their block.
The environment behind a loop or a switch is joined from the environments of its breaks,
which lie in the region since no scope with a variable of the name is left by a `break`.
-/

import GradualTyping.Proofs.Tracking.Expressions

namespace GradualTyping

open TypeTable List

variable {x : String} {R : Region} {s s' : CheckState} {t t' : TypeTable} {c c' : Checks}

/-! ### The names that a block enters -/

/-- From every state an answer satisfies `Q`. -/
def Gives {σ α : Type} (c : StateT σ TableM α) (Q : α → Prop) : Prop := ∀ st t, Q (c st t).1.1

namespace Gives

variable {σ α β γ : Type} {c : StateT σ TableM α} {f : α → StateT σ TableM β} {A : α → Prop}
  {B : β → Prop}

theorem pure {a : α} (h : A a) : Gives (Pure.pure a : StateT σ TableM α) A := fun _ _ => h

theorem bind (h : Gives c A) (k : ∀ a, A a → Gives (f a) B) : Gives (c >>= f) B :=
  fun st t => k _ (h st t) (c st t).1.2 (c st t).2

/-- Only the last step matters. -/
theorem last (k : ∀ a, Gives (f a) B) : Gives (c >>= f) B :=
  bind (A := fun _ => True) (fun _ _ => trivial) fun a _ => k a

theorem filterMapM {xs : List γ} {f : γ → StateT σ TableM (Option α)}
    (h : ∀ x ∈ xs, Gives (f x) fun o => ∀ a, o = some a → A a) :
    Gives (xs.filterMapM f) fun as => ∀ a ∈ as, A a := by
  have loop : ∀ (l : List γ) (acc : List α), l ⊆ xs → (∀ a ∈ acc, A a) →
      Gives (List.filterMapM.loop f l acc) fun as => ∀ a ∈ as, A a := by
    intro l
    induction l with
    | nil => exact fun acc _ hacc => .pure fun a ha => hacc a (mem_reverse.1 ha)
    | cons x l ih =>
      intro acc hl hacc
      obtain ⟨hx, hl⟩ := cons_subset.1 hl
      refine (h x hx).bind fun o ho => ?_
      cases o with
      | none => exact ih acc hl hacc
      | some a => exact ih (a :: acc) hl (forall_mem_cons.2 ⟨ho a rfl, hacc⟩)
  exact loop xs [] (List.Subset.refl xs) fun _ h => nomatch h

/-- What one element gives is among what all give. -/
theorem mem_filterMapM {xs : List γ} {f : γ → StateT σ TableM (Option α)} {x : γ} (hx : x ∈ xs)
    (h : Gives (f x) fun o => ∃ a, o = some a ∧ A a) :
    Gives (xs.filterMapM f) fun as => ∃ a ∈ as, A a := by
  have loop : ∀ (l : List γ) (acc : List α), x ∈ l ∨ (∃ a ∈ acc, A a) →
      Gives (List.filterMapM.loop f l acc) fun as => ∃ a ∈ as, A a := by
    intro l
    induction l with
    | nil =>
      intro acc found
      obtain ⟨a, ha, hA⟩ := found.resolve_left not_mem_nil
      exact .pure ⟨a, mem_reverse.2 ha, hA⟩
    | cons y l ih =>
      intro acc found
      have next : ∀ o : Option α, (x = y → ∃ a, o = some a ∧ A a) →
          x ∈ l ∨ ∃ a ∈ o.toList ++ acc, A a := by
        intro o ho
        rcases found with hmem | ⟨a, ha, hA⟩
        · rcases mem_cons.1 hmem with e | hmem
          · obtain ⟨a, rfl, hA⟩ := ho e
            exact .inr ⟨a, .head _, hA⟩
          · exact .inl hmem
        · exact .inr ⟨a, mem_append_right _ ha, hA⟩
      refine Gives.bind (A := fun o => x = y → ∃ a, o = some a ∧ A a) ?_ fun o ho => ?_
      · by_cases e : x = y
        · exact fun st t _ => (e ▸ h) st t
        · exact fun _ _ e' => absurd e' e
      · cases o with
        | none => exact ih acc (next none ho)
        | some a => exact ih (a :: acc) (next (some a) ho)
  exact loop xs [] (.inl hx)

end Gives

/-- A block has a function of a name. -/
def hasFunction (x : String) (body : List Stmt) : Bool :=
  body.any fun st => match st.kind with
    | .function f => f.name == x
    | _ => false

/-- The scope of a block whose functions have been entered. -/
def Opening.declared (x : String) (body : List Stmt) : Opening :=
  { Opening.block x body with entered := hasFunction x body }

namespace Lowering

/-- A block enters no other names than those its statements introduce. -/
theorem names_declareBlock (body : List Stmt) (hx : introducesIn x false body = false) :
    Gives (declareBlock body) fun values => ∀ p ∈ values, p.1 ≠ x := by
  have free : ∀ st ∈ body, st.kind.introduces x false = false := fun st hst =>
    Bool.eq_false_iff.2 (any_eq_false.1 hx st hst)
  refine .last fun _ => .last fun params => ?_
  refine Gives.bind (A := fun values : List (String × TypeId) => ∀ p ∈ values, p.1 ≠ x)
    (.filterMapM fun st hst => ?_) fun functions hfunctions => ?_
  · unfold declareFunction
    split
    · next f hf =>
      refine .last fun _ => .last fun _ => .last fun _ => .last fun _ => .pure ?_
      rintro p hp
      obtain rfl := Option.some.inj hp
      have := free st hst
      rw [hf] at this
      exact beq_eq_false_iff_ne.1 ((Bool.and_true _).symm.trans this)
    · exact .pure fun _ h => nomatch h
  · refine Gives.bind (A := fun values : List (String × TypeId) => ∀ p ∈ values, p.1 ≠ x)
      (.filterMapM fun st hst => ?_) fun classes hclasses => ?_
    · have value : ∀ params, Gives (lowerBody st params) fun r => ∀ p, r.2 = some p → p.1 ≠ x := by
        intro params
        unfold lowerBody
        split
        · exact .last fun _ => .pure fun _ h => nomatch h
        · exact .last fun _ => .last fun _ => .last fun _ => .last fun _ =>
            .pure fun _ h => nomatch h
        · next decl hdecl =>
          refine .last fun r => .last fun _ => .pure fun p hp => ?_
          obtain rfl := Option.some.inj hp
          have := free st hst
          rw [hdecl] at this
          exact beq_eq_false_iff_ne.1 ((Bool.and_true _).symm.trans this)
        · exact .pure fun _ h => nomatch h
      unfold declareBody
      refine .last fun _ => ?_
      split
      · exact .pure fun _ h => nomatch h
      · extract_lets own
        refine Gives.bind (A := fun r : TypeId × Option (String × TypeId) =>
          ∀ p, r.2 = some p → p.1 ≠ x) ?_ fun r hr => ?_
        · unfold withScope
          refine .last fun _ => ?_
          exact Gives.bind (.last fun _ => value own) fun r hr => .last fun _ => .pure hr
        · refine .last fun outcome => ?_
          split
          · exact .pure hr
          · exact .last fun _ => .pure hr
    · refine .pure fun p hp => ?_
      rcases mem_append.1 hp with hp | hp
      · exact hfunctions p hp
      · exact hclasses p hp

/-- A block enters the names of its functions. -/
theorem functions_declareBlock (body : List Stmt) (hx : hasFunction x body = true) :
    Gives (declareBlock body) fun values => (values.any (·.1 == x)) = true := by
  obtain ⟨st, hst, hf⟩ := any_eq_true.1 hx
  obtain ⟨f, hkind, hf⟩ : ∃ f, st.kind = .function f ∧ (f.name == x) = true := by
    split at hf
    · next f hkind => exact ⟨f, hkind, hf⟩
    · cases hf
  refine .last fun _ => .last fun params => ?_
  refine Gives.bind (A := fun values : List (String × TypeId) => ∃ p ∈ values, (p.1 == x) = true)
    (.mem_filterMapM hst ?_) fun functions hfunctions => .last fun classes => .pure ?_
  · unfold declareFunction
    rw [hkind]
    exact .last fun _ => .last fun _ => .last fun _ => .last fun _ => .pure ⟨_, rfl, hf⟩
  · rw [any_append, any_eq_true.2 hfunctions, Bool.true_or]

end Lowering

namespace Point

variable {P : Point} {o : Opening} {leaves : Bool}

/-- The point with other environments put aside. -/
def withBreaks (P : Point) (breaks : List (List TypeEnv)) : Point where
  column := P.column
  breaks := breaks

theorem Admits.of_column {Q : Point} {body : List Stmt} (h : P.Admits x R body)
    (same : Q.column = P.column) : Q.Admits x R body :=
  ⟨h.avoids.mono fun _ hp => hp.of_column same rfl, fun hp => h.scope (hp.of_column same)⟩

theorem Admits.nil : P.Admits x R [] where
  avoids _ hs := (not_mem_nil hs).elim
  scope hp := by cases hp <;> rfl

/-- A statement may be checked at a point. -/
structure Allows (x : String) (R : Region) (P : Point) (kind : StmtKind) : Prop where
  whole {p : Pattern} : P.Forbids x R p → p.stmt kind = false
  parts : kind.Avoids (P.Forbids x R)

theorem allows_of_avoids {kind : StmtKind} {span : Span}
    (h : (Stmt.mk kind span).Avoids (P.Forbids x R)) : P.Allows x R kind :=
  ⟨fun hp => h.whole hp, h.parts⟩

/-- A block that a statement opens may be checked at its point. -/
theorem Allows.admits {kind : StmtKind} {body : List Stmt} (h : P.Allows x R kind)
    {Q : Point} (same : Q.column = P.column) (avoids : BlockAvoids (P.Forbids x R) body)
    (block : ∀ {p : ScopePattern}, kind.opens p = false → p.block body = false) :
    Q.Admits x R body :=
  ⟨avoids.mono fun _ hp => hp.of_column same rfl,
    fun hp => block (h.whole (.scope (hp.of_column same)))⟩

theorem Allows.loose {kind : StmtKind} (h : P.Allows x R kind) : P.loose.Allows x R kind :=
  ⟨fun hp => h.whole hp.loose, fun p hp => h.parts p hp.loose⟩

/-- Breaks of one block after another. -/
theorem After.trans {leaves' : Bool} {s1 : CheckState} {t1 : TypeTable}
    (h : P.Breaks x R leaves s1 t1) (st : Stands s1 t1) (hbound : t1.Has P.bound)
    (g : t1.Continues t) (h' : (P.withBreaks s1.breaks).After x R leaves' s t) :
    P.After x R (leaves || leaves') s t := by
  refine ⟨h'.column, h'.env, ?_⟩
  intro tracked
  obtain ⟨added, breaks, none, envs⟩ := h tracked
  obtain ⟨added', breaks', none', envs'⟩ := h'.breaks tracked
  refine ⟨added ++ added', ?_, fun e => ?_, fun env henv => ?_⟩
  · rw [breaks', ← addBreaks_append, ← breaks]
    rfl
  · obtain ⟨e, e'⟩ := Bool.or_eq_false_iff.1 e
    rw [none e, none' e', append_nil]
  · rcases mem_append.1 henv with henv | henv
    · obtain ⟨below, inside⟩ := envs env henv
      exact ⟨g below, inside.later st.sound g hbound below⟩
    · exact envs' env henv

end Point

namespace Checking

variable {P : Point} {o : Opening} {leaves : Bool}

/-- Enter names, which may be those that a scope enters as constants. -/
theorem follows_bindAll {values : List (String × TypeId)} (fits : o.Fits R) (st : Stands s t)
    (hvalues : t.Has values) (hnames : ∀ p ∈ values, p.1 = x → o.enters false = true)
    (h : P.Amid x R o s t) :
    Steps s t (values.forM fun (name, type) => bind name type false)
      (values.forM fun (name, type) => bind name type false) fun _ s' t' =>
        P.Amid x R { o with entered := o.entered || values.any (·.1 == x) } s' t' := by
  induction values generalizing s t o with
  | nil =>
    refine .pure st ?_
    rw [any_nil, Bool.or_false]
    exact h
  | cons p values ih =>
    obtain ⟨hp, hvalues⟩ := below_cons.1 hvalues
    obtain ⟨hname, hnames⟩ := forall_mem_cons.1 hnames
    refine (h.bind fits st false hp.2 hname).bind fun _ s1 t1 st1 g1 ⟨h1, _⟩ => ?_
    have fits1 : Opening.Fits { o with entered := o.entered || p.1 == x } R :=
      ⟨fits.assignable, fits.stays⟩
    refine (ih fits1 st1 (g1 hvalues) hnames h1).mono fun _ _ _ _ _ h => ?_
    rwa [Bool.or_assoc] at h

/-- Enter the functions and classes of a block. -/
theorem follows_declare {body : List Stmt} (span : Span) (st : Stands s t)
    (fits : (Opening.block x body).Fits R) (h : P.Amid x R (.block x body) s t) :
    Steps s t (declare body span) (declare body span) fun _ s' t' =>
      P.Amid x R (.declared x body) s' t' := by
  have names : Leads Alike (lowering span (Lowering.declareBlock body)) fun values =>
      (∀ p ∈ values, p.1 = x → introducesIn x false body = true) ∧
      (hasFunction x body = true → (values.any (·.1 == x)) = true) := by
    intro s t
    refine ⟨(does_lowering span _ s t).1, ?_, fun hx => ?_⟩
    · cases hx : introducesIn x false body with
      | true => exact fun _ _ _ => rfl
      | false => exact fun p hp e => absurd e (Lowering.names_declareBlock body hx _ _ p hp)
    · exact Lowering.functions_declareBlock body hx _ _
  refine (Steps.calm st (growing_lowering (Lowering.growing_declareBlock st.sound))
    names).bind fun values s1 t1 st1 g1 ⟨hvalues, ⟨hnames, hfunctions⟩, a⟩ => ?_
  exact (follows_bindAll fits st1 hvalues hnames (h.alike fits st a g1)).mono
    fun _ _ _ _ _ h2 => h2.relax rfl rfl hfunctions

section Declarations

variable (hc : c.Follows c' x R) (inner : R.assignable ∨ c.Follows c' x (.whole R.tracked))
variable {span : Span}

include hc

/-- The types of a variable: the later one is one that the region has for the declared one. -/
theorem follows_varTypes {kind : VarKind} {type : Option TypeExpr} {init : Option Expr}
    (h : P.Amid x R o s t) (fits : o.Fits R) (st : Stands s t)
    (hinit : ∀ e, init = some e → e.Avoids ((Point.ofState s x).Forbids x R)) :
    Steps s t (varTypes c kind type init span) (varTypes c' kind type init span)
      fun p s' t' => P.Amid x R o s' t' ∧ t'.Has p ∧ (R.assignable → R.Has p.1 t' p.2) := by
  refine Steps.bind (h.atPoint.calm st (.mapOption st.sound fun type _ =>
    growing_lower st.sound) (.mapOption fun type _ => does_lower))
    fun declared s1 t1 st1 g1 h1 => ?_
  refine Steps.bind (.mapOption st1 h1.2 fun e he => ?_) fun actual s2 t2 st2 g2 h2 => ?_
  · exact (hc.expr (hinit e he) h1.1 s1 st1 h1.2).bind fun actual s2 t2 st2 _ h2 =>
      .pure st2 ⟨⟨trivial, h2.1⟩, h2.2⟩
  have hdeclared := g2 h1.1
  have hactual := h2.1
  replace h2 := h.of_at fits st (g1.trans g2) h2.2
  clear h1
  have keep : ∀ s3 t3 type, Stands s3 t3 → P.Amid x R o s3 t3 → t3.Has type →
      Steps s3 t3 (pure (type, type)) (pure (type, type)) fun p s' t' =>
        P.Amid x R o s' t' ∧ t'.Has p ∧ (R.assignable → R.Has p.1 t' p.2) :=
    fun _ _ _ st3 h3 htype =>
      .pure st3 ⟨h3, ⟨htype, htype⟩, fun hR => R.declared hR st3.sound htype⟩
  split
  · next declared e actual =>
    have hdeclared : t2.Has declared := below_some.1 hdeclared
    have hactual : t2.Has actual := (below_some.1 hactual).2
    split
    · refine (h2.calm fits st2 (keeps_expectNever st2.sound e hactual) does_expectNever).bind
        fun _ s3 t3 st3 g3 h3 => ?_
      exact keep s3 t3 declared st3 h3.2 (g3 hdeclared)
    · refine (h2.calm fits st2 (growing_valueFits st2.sound hactual hdeclared)
        does_valueFits).bind fun fit s3 t3 st3 g3 h3 => ?_
      have hdeclared := g3 hdeclared
      split
      · have safe := safe_narrowByAssignment st3.sound hdeclared (g3 hactual)
        have assigned : Keeps Runs t3 (narrowByAssignment declared actual) fun t' u =>
            t'.Has u ∧ (R.assignable → R.Has declared t' u) :=
          ⟨safe.sound, safe.related, safe.post, fun hR =>
            (R.assigned hR st3.sound hdeclared (g3 hactual)).post⟩
        exact (h3.2.calm fits st3 assigned.weaken.lift (.lift _)).bind
          fun current s4 t4 st4 g4 ⟨⟨hcurrent, has⟩, h4⟩ =>
            .pure st4 ⟨h4, ⟨g4 hdeclared, hcurrent⟩, has⟩
      · exact keep s3 t3 declared st3 h3.2 hdeclared
  · next declared => exact keep s2 t2 declared st2 h2 (below_some.1 hdeclared)
  · next e actual =>
    have hactual : t2.Has actual := (below_some.1 hactual).2
    split
    · exact keep s2 t2 actual st2 h2 hactual
    · exact (h2.calm fits st2 (safe_widenLiterals st2.sound hactual).weaken.lift (.lift _)).bind
        fun type s3 t3 st3 _ h3 => keep s3 t3 type st3 h3.2 h3.1
  · exact keep s2 t2 .any st2 h2 st2.sound.below_any

/-- Declare a variable, which enters its name. -/
theorem follows_checkVar {kind : VarKind} {name : String} {type : Option TypeExpr}
    {init : Option Expr} (h : P.Amid x R o s t) (fits : o.Fits R) (st : Stands s t)
    (hinit : ∀ e, init = some e → e.Avoids ((Point.ofState s x).Forbids x R))
    (hname : name = x → o.enters (kind = .let_) = true) :
    Steps s t (checkVar c kind name type init span) (checkVar c' kind name type init span)
      fun _ s' t' => P.Amid x R o s' t' := by
  refine (follows_varTypes hc h fits st hinit).bind fun p s1 t1 st1 _ ⟨h1, hp, has⟩ => ?_
  refine (h1.bind fits st1 _ hp.1 hname).bind fun _ s2 t2 st2 g2 ⟨h2, entered⟩ => ?_
  have h2 : P.Amid x R o s2 t2 := h2.relax rfl rfl fun e => Bool.or_eq_true_iff.2 (.inl e)
  exact h2.refine st2 (g2 hp.2) fun e _ =>
    ⟨_, entered e, R.later st1.sound g2 hp.1 hp.2 (has (fits.assignable (hname e)))⟩

include inner

theorem follows_inferredType? {f : FunctionDecl Stmt}
    (h : P.Amid x R o s t) (fits : o.Fits R) (st : Stands s t) (hf : ∀ body, f.body = some body →
      (Point.ofState s x).AdmitsFunction x R f.params f.rest (.block body)) :
    Steps s t (inferredType? c f span) (inferredType? c' f span)
      fun type s' t' => P.Amid x R o s' t' ∧ t'.Has type := by
  unfold inferredType?
  split
  · exact .pure st ⟨h, below_none⟩
  · next body hbody =>
    refine .get ?_
    split
    · exact .pure st ⟨h, below_none⟩
    · next declared hdeclared =>
      refine (h.atPoint.lift st (safe_functionOf? st.sound (CheckState.below_binding? st.below
        f.name declared hdeclared))).bind fun signature s1 t1 st1 g1 h1 => ?_
      split
      · exact .pure st1 ⟨h.of_at fits st g1 h1.2, below_none⟩
      · next signature =>
        have hsignature : t1.Has signature := below_some.1 h1.1
        refine Steps.bind (FunctionSite.follows_check hc inner (hf body hbody)
          ⟨hsignature, below_none⟩ s1 st1 h1.2) fun result s2 t2 st2 g2 ⟨hresult, at2⟩ => ?_
        have h2 := h.of_at fits st (g1.trans g2) at2
        have hsignature := g2 hsignature
        split
        · exact .pure st2 ⟨h2, below_none⟩
        · exact Steps.bind (h2.calm fits st2 (.lift (.weaken (safe_functionOf st2.sound
            ⟨hsignature.1, hsignature.2.1, hsignature.2.2.1, hresult, hsignature.2.2.2.2⟩)))
            (.lift _)) fun type s3 t3 st3 _ h3 => .pure st3 ⟨h3.2, below_some.2 h3.1⟩

/-- Check a function declaration, which may declare its name anew. -/
theorem follows_checkFunctionDecl {f : FunctionDecl Stmt}
    (h : P.Amid x R o s t) (fits : o.Fits R) (st : Stands s t) (hf : ∀ body, f.body = some body →
      (Point.ofState s x).AdmitsFunction x R f.params f.rest (.block body))
    (hname : f.name = x → o.entered = true) :
    Steps s t (checkFunctionDecl c f span) (checkFunctionDecl c' f span)
      fun _ s' t' => P.Amid x R o s' t' := by
  refine (follows_inferredType? hc inner h fits st hf).bind
    fun type s1 t1 st1 _ ⟨h1, htype⟩ => ?_
  cases type with
  | none => exact .pure st1 h1
  | some type => exact h1.redeclare fits st1 (below_some.1 htype) hname

/-- Check the fields, the constructor and the methods of a class. -/
theorem follows_checkMembers {decl : Class} {instances : Option ObjectShape}
    {constructor : Option Signature} (hdecl : P.Allows x R (.class_ decl))
    (hinstances : t.Has instances) (hconstructor : t.Has constructor) :
    P.Stays x R t (checkMembers c decl instances constructor span)
      (checkMembers c' decl instances constructor span) := by
  have param : ¬R.assignable → (StmtKind.class_ decl).opens (.params x) = false := fun hR =>
    (Bool.or_eq_false_iff.1 (hdecl.whole (.declares hR))).2
  refine .bind (.forM fun field hfield t1 _ g1 => ?_) fun t1 _ s1 g1 _ => ?_
  · unfold checkField
    split
    · next init hinit =>
      extract_lets expected
      have hexpected : t1.Has expected := below_propertyType? (g1 hinstances)
      clear_value expected
      refine .bind (hc.expr (hdecl.parts.part (mem_filterMap.2 ⟨field, hfield, hinit⟩))
        hexpected) fun t2 type s2 g2 h2 => ?_
      split
      · next target =>
        exact .ignore (.calm (growing_valueFits s2 h2 (g2 (below_some.1 hexpected)))
          does_valueFits)
      · exact .pure trivial
    · exact .pure trivial
  have methods : ∀ t2, t2.Sound → P.Stays x R t2
      (decl.methods.forM fun f => checkMethod c instances f span : CheckM Unit)
      (decl.methods.forM fun f => checkMethod c' instances f span) := by
    refine fun t2 _ => .forM fun f hf t3 s3 _ => ?_
    unfold checkMethod
    split
    · next body hbody =>
      refine .getTable ?_
      split
      · next signature hsignature =>
        obtain ⟨p, _, hsignature⟩ := Option.bind_eq_some_iff.1 hsignature
        have hsignature := below_function? (s3.below_resolve p.type) signature hsignature
        have admits : P.AdmitsFunction x R f.params f.rest (.block body) :=
          ⟨hdecl.parts.function (mem_append_right _ (mem_filterMap.2 ⟨f, hf, hbody⟩)),
            fun hp => StmtKind.opens_method (hdecl.whole (.scope hp)) hf hbody,
            fun hR => StmtKind.opens_method (param hR) hf hbody⟩
        exact .ignore (FunctionSite.follows_check hc inner admits ⟨hsignature, below_none⟩)
      · exact .pure trivial
    · exact .pure trivial
  split
  · next f signature heq =>
    obtain ⟨hf, hsignature⟩ := Prod.mk.inj heq
    have below : t1.Has signature := g1 (hconstructor signature hsignature)
    have hvoid : t1.Has TypeId.void := s1.below_fixed rfl
    have admits : P.AdmitsFunction x R f.params none (.block f.body) :=
      ⟨hdecl.parts.function (mem_append_left _ (Option.mem_toList.2 (Option.map_eq_some_iff.2 ⟨f, hf, rfl⟩))),
        fun hp => StmtKind.opens_constructor (hdecl.whole (.scope hp)) hf,
        fun hR => StmtKind.opens_constructor (param hR) hf⟩
    refine .bind (.ignore (FunctionSite.follows_check hc inner admits
      ⟨⟨below_nil, below.2.1, below_none, hvoid, below_none⟩, below_none⟩)) fun t2 _ s2 _ _ => ?_
    exact methods t2 s2
  · exact methods t1 s1

theorem follows_checkClass {decl : Class} (span : Span) (hdecl : P.Allows x R (.class_ decl))
    (s : t.Sound) : P.Stays x R t (checkClass c decl span) (checkClass c' decl span) := by
  refine .getTable ?_
  split
  · next declared hdeclared =>
    have hdeclared := s.aliases hdeclared
    extract_lets checked checked'
    have hinstances : t.Has (declared.body.bind fun body => (t.resolve body).object?) := by
      intro o ho
      obtain ⟨body, _, ho⟩ := Option.bind_eq_some_iff.1 ho
      exact below_object? (s.below_resolve body) o ho
    have checked_stays : ∀ t1 constructor, t1.Sound → t.Continues t1 → t1.Has constructor →
        P.Stays x R t1 (checked constructor) (checked' constructor) := by
      intro t1 constructor s1 g1 hconstructor
      refine .bind (.calm (keeps_pushTypeScope s1 (g1 (Sound.below_paramScope
        hdeclared.1))) (calm_pushTypeScope _)) fun t2 _ s2 g2 _ => ?_
      refine .bind (.lift (safe_referenceTo s2 ((g1.trans g2) hdeclared.1)))
        fun t3 this s3 g3 h3 => .get fun outer st3 _ => ?_
      have houter := st3.below.thisType
      refine .bind (.calm (keeps_change s3 fun st hst => { hst with
        thisType := below_some.2 h3 }) (.change fun _ => ⟨rfl, rfl, rfl, rfl⟩))
        fun t4 _ s4 g4 _ => ?_
      have g4' := g2.trans (g3.trans g4)
      refine .bind (follows_checkMembers hc inner hdecl ((g1.trans g4') hinstances)
        (g4' hconstructor)) fun t5 _ s5 g5 _ => ?_
      refine .bind (.calm (keeps_change s5 fun st hst => { hst with
        thisType := (g4.trans g5) houter }) (.change fun _ => ⟨rfl, rfl, rfl, rfl⟩))
        fun t6 _ s6 _ _ => ?_
      exact .calm (keeps_popTypeScope s6) calm_popTypeScope
    refine .get fun s st _ => ?_
    split
    · next b hb =>
      exact .bind (.lift (safe_functionOf? st.sound (CheckState.below_binding? st.below decl.name b
        hb))) fun t1 constructor s1 g1 h1 => checked_stays t1 constructor s1 g1 h1
    · exact checked_stays t none st.sound (.refl t) below_none
  · exact .pure trivial

end Declarations

section Statements

variable (hc : c.Follows c' x R)
variable {span : Span} {body : List Stmt} {state : SwitchState} {group : List Case}
variable {cond : Expr} {before : Nat}

include hc

theorem follows_returnType {value : Option Expr}
    (hvalue : ∀ e, value = some e → e.Avoids (P.Forbids x R)) (span : Span) :
    P.Stays x R t (returnType c value span) (returnType c' value span) := by
  refine .get fun s st _ => ?_
  extract_lets frame expected
  have hframe : t.Has frame := fun f hf => st.below.functions f (mem_of_mem_head? hf)
  have hexpected : t.Has expected := by
    intro id hid
    obtain ⟨f, hf, hid⟩ := Option.bind_eq_some_iff.1 hid
    exact (hframe f hf).1 id hid
  have hcontextual : t.Has (frame.bind (·.contextual)) := by
    intro id hid
    obtain ⟨f, hf, hid⟩ := Option.bind_eq_some_iff.1 hid
    exact (hframe f hf).2.1 id hid
  clear_value expected
  split
  · next e =>
    refine .bind (hc.expr (hvalue e rfl) (hexpected.or hcontextual)) fun t1 type s1 g1 h1 => ?_
    refine .bind (.lift (FunctionSite.safe_returned s1 h1)) fun t2 type s2 g2 h2 => ?_
    split
    · next target =>
      have htarget : t2.Has target := (g1.trans g2) (below_some.1 hexpected)
      exact .bind (.calm (growing_valueFits s2 h2 htarget) does_valueFits)
        fun t3 _ _ g3 _ => .pure (g3 h2)
    · exact .pure h2
  · have hvoid : t.Has TypeId.void := st.sound.below_fixed rfl
    split
    · next target =>
      exact .bind (.calm (growing_fits st.sound hvoid (below_some.1 hexpected))
        does_fits) fun t1 _ _ g1 _ => .pure (g1 hvoid)
    · exact .pure hvoid

theorem follows_checkIf (P : Point) {yes : List Stmt} {no : Option (List Stmt)}
    (hif : P.Allows x R (.if_ cond yes no)) (st : Stands s t) (h : P.At x R s t) :
    Steps s t (checkIf c cond yes no span) (checkIf c' cond yes no span) fun _ s' t' =>
      P.After x R (leavesBlock yes || leavesOption no) s' t' := by
  refine (hc.plain (hif.parts.part (.head _)) s st h).bind fun _ s1 t1 st1 _ h1 => ?_
  refine (h1.2.calmWith st1 (growing_guardOf st1.sound) (leads_guardOf x)).bind
    fun guard s2 t2 st2 g2 ⟨hguard, htests, h2⟩ => .get (.get ?_)
  have edges := h2.env.bothEdges st2.sound hguard (tests_allowed (fun hR => hif.whole (.asks hR)) htests)
    (h2.below_bound st2) st2.below.env
  refine (h2.loose.lift st2 edges).bind fun envs s3 t3 st3 g3 ⟨⟨below, yesIn, noIn⟩, h3⟩ => ?_
  refine (h3.setEnv (P := P.loose) st3 (below_onEdge below.1) yesIn.onEdge
    fun _ e => nomatch e).bind fun _ s4 t4 st4 g4 h4 => ?_
  refine (h4.calm st4 (keeps_recordFrom st4.sound _ _ _) (does_recordFrom _ _ _)).bind
    fun _ s5 t5 st5 g5 h5 => ?_
  have yesAdmits : P.loose.Admits x R yes :=
    hif.admits rfl (hif.parts.block rfl (.head _)) fun h => (Bool.or_eq_false_iff.1 h).1
  refine (hc.block P.loose yesAdmits st5 h5.2).bind fun _ s6 t6 st6 g6 h6 => .get ?_
  have hbound6 : t6.Has P.bound := g6 (h5.2.below_bound st5)
  have g6' := g4.trans (g5.trans g6)
  have noIn6 := noIn.later st3.sound g6' (h3.below_bound st3) below.2
  let Q : Point := P.withBreaks s6.breaks
  have back : Q.At x R s6 t6 := ⟨h6.column, fun _ => rfl, h6.env, fun _ e => nomatch e⟩
  refine (back.setEnv (P := Q) st6 (below_onEdge (g6' below.2)) noIn6.onEdge
    fun _ e => nomatch e).bind fun _ s7 t7 st7 g7 h7 => ?_
  refine (h7.calm st7 (keeps_recordFrom st7.sound _ _ _) (does_recordFrom _ _ _)).bind
    fun _ s8 t8 st8 g8 h8 => ?_
  have g8' := g7.trans g8
  extract_lets joined
  have joined_follows : ∀ {leaves : Bool} s9 t9, Stands s9 t9 → t6.Continues t9 →
      P.After x R leaves s9 t9 → Steps s9 t9 (joined ⟨⟩) (joined ⟨⟩) fun _ s' t' =>
        P.After x R leaves s' t' := by
    intro leaves s9 t9 st9 g9 h9
    refine .get ?_
    have hbound9 := g9 hbound6
    have yesIn9 := h6.env.later st6.sound g9 hbound6 st6.below.env
    have merged := InRegion.merge st9.sound hbound9 (g9 st6.below.env) st9.below.env yesIn9
      h9.env
    refine (Steps.lift st9 (Tabled.Keeps.weaken (m := TableM) merged)).bind
      fun env s10 t10 st10 g10 ⟨⟨below, inside⟩, same⟩ => ?_
    subst same
    refine Steps.bind (Q := fun _ s' t' => P.After x R leaves s' t' ∧ t10 = t')
      (.change st10 { st10.below with env := below } ⟨⟨h9.column, inside,
        h9.breaks.later st9 g10 hbound9 rfl⟩, rfl⟩) fun _ s11 t11 st11 _ ⟨h11, same⟩ => ?_
    subst same
    refine (Steps.calm st11 (keeps_recordFrom st11.sound _ _ _) (does_recordFrom _ _ _)).mono
      fun _ s' t' _ g' ⟨_, _, a⟩ => ?_
    have hbound10 := g10 hbound9
    refine ⟨?_, a.env ▸ h11.env.later st11.sound g' hbound10 st11.below.env,
      h11.breaks.later st11 g' hbound10 a.breaks⟩
    rw [CheckState.column, a.scopes]
    exact h11.column
  split
  · next body =>
    have noAdmits : Q.Admits x R body :=
      hif.admits rfl (hif.parts.block rfl (.tail _ (.head _))) fun h => (Bool.or_eq_false_iff.1 h).2
    refine (hc.block Q noAdmits st8 h8.2).bind fun _ s9 t9 st9 g9 h9 => ?_
    exact joined_follows s9 t9 st9 (g8'.trans g9) (.trans h6.breaks st6 hbound6 (g8'.trans g9) h9)
  · refine joined_follows s8 t8 st8 g8' ?_
    exact .trans h6.breaks st6 hbound6 g8' h8.2.after

/-! ### Loops -/

omit hc in
/-- What a loop assigns to has its declared type at the head. -/
theorem follows_forgetAssigned (P : Point)
    (hbody : x ∈ assignedIn body → R.assignable) (st : Stands s t) (h : P.loose.At x R s t) :
    Steps s t (forgetAssigned body) (forgetAssigned body) fun _ s' t' =>
      P.loose.At x R s' t' := by
  refine .forM st h fun name hname s1 t1 st1 _ h1 => .get ?_
  split
  · next b hb =>
    have hdeclared : t1.Has b.declared := CheckState.below_binding? st1.below name b hb
    refine .change st1 { st1.below with
      env := TypeEnv.below_insert st1.below.env hdeclared } ⟨h1.column, h1.breaks, ?_,
        fun _ e => nomatch e⟩
    by_cases hx : name = x
    · subst hx
      exact h1.env.insert fun _ =>
        ⟨b, h1.binding? ▸ hb, R.declared (hbody hname) st1.sound hdeclared⟩
    · exact h1.env.insert_of_ne hx
  · exact .pure st1 h1

omit hc in
/-- Collect the environments at breaks anew. -/
theorem follows_pushBreaks (st : Stands s t) (h : P.loose.At x R s t) :
    Steps s t pushBreaks pushBreaks fun _ s' t' =>
      (P.withBreaks ([] :: P.breaks)).At x R s' t' :=
  .change st (keeps_pushBreaks st.sound s st.below).post.2
    ⟨h.column, fun tracked => congrArg ([] :: ·) (h.breaks tracked), h.env, fun _ e => nomatch e⟩

omit hc in
/-- The environments at breaks lie in the region. -/
theorem follows_popBreaks (st : Stands s t)
    (h : (P.withBreaks ([] :: P.breaks)).After x R leaves s t) :
    Steps s t popBreaks popBreaks fun breaks s' t' => P.loose.At x R s' t' ∧
      s'.env = s.env ∧ ∀ env ∈ breaks, t'.Has env ∧ InRegion x R P.bound t' env := by
  have tracks (tracked : R.tracked) : ∃ added, s.breaks = added :: P.breaks ∧
      ∀ env ∈ added, t.Has env ∧ InRegion x R P.bound t env :=
    have ⟨added, breaks, _, envs⟩ := h.breaks tracked
    ⟨added, breaks, envs⟩
  refine Steps.get (f := fun s => _) (Steps.bind
    (Q := fun _ s' t' => P.loose.At x R s' t' ∧ s'.env = s.env ∧ t' = t)
    (.change st { st.below with breaks := st.below.breaks.tail } ⟨⟨h.column, fun tracked => ?_,
      h.env, fun _ e => nomatch e⟩, rfl, rfl⟩)
    fun _ s1 t1 st1 _ ⟨h1, same, ht⟩ => .pure st1 ⟨h1, same, fun env henv => ht ▸ ⟨?_, ?_⟩⟩)
  · obtain ⟨_, e, -⟩ := tracks tracked
    exact congrArg List.tail e
  · have hbreaks := st.below.breaks
    cases hs : s.breaks with
    | nil =>
      rw [hs] at henv
      cases henv
    | cons frame outer =>
      rw [hs] at henv hbreaks
      exact (below_cons.1 hbreaks).1 env henv
  · refine .of_tracked fun tracked => ?_
    obtain ⟨added, e, envs⟩ := tracks tracked
    rw [e] at henv
    exact (envs env henv).2

omit hc in
theorem follows_openLoop (hbody : x ∈ assignedIn body → R.assignable) (st : Stands s t)
    (h : P.loose.At x R s t) :
    Steps s t (openLoop body span) (openLoop body span) fun _ s' t' => P.loose.At x R s' t' := by
  refine (follows_forgetAssigned P hbody st h).bind fun _ s1 t1 st1 _ h1 => .get ?_
  exact (h1.calm st1 (keeps_recordFrom st1.sound _ _ _) (does_recordFrom _ _ _)).mono
    fun _ _ _ _ _ h => h.2

/-- From the head of a loop to the end of its body. -/
theorem follows_runBody
    (hwhile : P.Allows x R (.while_ cond body)) (st : Stands s t) (h : P.At x R s t) :
    Steps s t (runBody c cond body) (runBody c' cond body) fun exit s' t' =>
      (P.withBreaks ([] :: P.breaks)).After x R (leavesBlock body) s' t' ∧
      t'.Has exit ∧ InRegion x R P.bound t' exit := by
  refine .get ?_
  refine (hc.plain (hwhile.parts.part (.head _)) s st h).bind fun _ s1 t1 st1 _ h1 => ?_
  refine (h1.2.calmWith st1 (growing_guardOf st1.sound) (leads_guardOf x)).bind
    fun guard s2 t2 st2 g2 ⟨hguard, htests, h2⟩ => .get ?_
  have edges := h2.env.bothEdges st2.sound hguard (tests_allowed (fun hR => hwhile.whole (.asks hR)) htests)
    (h2.below_bound st2) st2.below.env
  refine (h2.loose.lift st2 edges).bind fun envs s3 t3 st3 g3 ⟨⟨below, bodyIn, exitIn⟩, h3⟩ => ?_
  refine (h3.setEnv (P := P.loose) st3 below.1 bodyIn fun _ e => nomatch e).bind
    fun _ s4 t4 st4 g4 h4 => ?_
  refine (h4.calm st4 (keeps_recordFrom st4.sound _ _ _) (does_recordFrom _ _ _)).bind
    fun _ s5 t5 st5 g5 h5 => ?_
  refine (follows_pushBreaks st5 h5.2).bind fun _ s6 t6 st6 g6 h6 => ?_
  have admits : (P.withBreaks ([] :: P.breaks)).Admits x R body :=
    hwhile.admits rfl (hwhile.parts.block rfl (.head _)) id
  refine (hc.block _ admits st6 h6).bind fun _ s7 t7 st7 g7 h7 => .pure st7 ⟨h7, ?_, ?_⟩
  · exact (g4.trans (g5.trans (g6.trans g7))).below below.2
  · exact exitIn.later st3.sound (g4.trans (g5.trans (g6.trans g7))) (h3.below_bound st3) below.2

theorem follows_checkWhile (P : Point)
    (hwhile : P.Allows x R (.while_ cond body)) (st : Stands s t) (h : P.At x R s t) :
    Steps s t (checkWhile c cond body span) (checkWhile c' cond body span) fun _ s' t' =>
      P.loose.At x R s' t' := by
  have assigned : x ∈ assignedIn body → R.assignable := fun hx => Classical.not_not.1 fun hR => by
    have none := blockAvoids_iff.1 (hwhile.parts.block rfl (.head _)) _ (.assigns (.inr hR))
    exact absurd (hasStmts_of_mem_assigned hx) (by rw [none]; decide)
  refine (follows_openLoop assigned st h.loose).bind fun _ s2 t2 st2 _ h2 => .get ?_
  refine (follows_runBody hc hwhile.loose st2 h2).bind
    fun exit s3 t3 st3 g3 ⟨h3, below, inside⟩ => .get ?_
  refine (follows_popBreaks st3 h3).bind fun breaks s4 t4 st4 g4 ⟨h4, _, hbreaks⟩ => ?_
  have hbound := g3 (h2.below_bound st2)
  have paths : ∀ env ∈ onEdge (constantCondition? cond = some true) exit :: breaks,
      t4.Has env ∧ InRegion x R P.loose.bound t4 env :=
    forall_mem_cons.2 ⟨⟨below_onEdge (g4 below),
      (inside.later st3.sound g4 hbound below).onEdge⟩, hbreaks⟩
  have joined := InRegion.join st4.sound (h4.below_bound st4) paths
  refine (h4.lift st4 joined).bind fun env s5 t5 st5 _ ⟨⟨below, inside⟩, h5⟩ => ?_
  refine (h5.setEnv (P := P.loose) st5 below inside fun _ e => nomatch e).bind
    fun _ s6 t6 st6 _ h6 => ?_
  exact (h6.calm st6 (keeps_recordFrom st6.sound _ _ _) (does_recordFrom _ _ _)).mono
    fun _ _ _ _ _ h => h.2

/-! ### Switches -/

/-- What is known after some clauses lies in the region. -/
def SwitchState.Inside (x : String) (R : Region) (bound : Option LocalVariable) (t : TypeTable)
    (state : SwitchState) : Prop :=
  Below t.size state ∧ InRegion x R bound t state.residual ∧
    ∀ env ∈ state.exits, InRegion x R bound t env

omit hc in
theorem SwitchState.Inside.later {bound : Option LocalVariable}
    (h : SwitchState.Inside x R bound t state) (sound : t.Sound) (g : t.Continues t')
    (hbound : t.Has bound) : SwitchState.Inside x R bound t' state :=
  ⟨g h.1, h.2.1.later sound g hbound h.1.1, fun env henv =>
    (h.2.2 env henv).later sound g hbound (h.1.2 env henv)⟩

omit hc in
/-- The environments at the start of a clause and where it does not match. -/
theorem follows_enterClause (P : Point) (subject : Option SwitchSubject) (tests : List Expr)
    (isDefault : Bool) {residual : TypeEnv} (below : t.Has residual)
    (inside : InRegion x R P.bound t residual) (st : Stands s t) (h : P.At x R s t) :
    Steps s t (enterClause subject tests isDefault residual)
      (enterClause subject tests isDefault residual) fun envs s' t' => P.At x R s' t' ∧
        t'.Has envs ∧ InRegion x R P.bound t' envs.1 ∧ InRegion x R P.bound t' envs.2 := by
  unfold enterClause
  have edges : ∀ {s1 t1} (guard : Guard), Stands s1 t1 → t.Continues t1 → P.At x R s1 t1 →
      t1.Has guard → guard.Tests x (fun test => test.asksType = true → R.askable) →
      Steps s1 t1 (bothEdges residual guard : CheckM _) (bothEdges residual guard : CheckM _)
        fun envs s' t' => P.At x R s' t' ∧ t'.Has envs ∧ InRegion x R P.bound t' envs.1 ∧
          InRegion x R P.bound t' envs.2 := by
    intro s1 t1 guard st1 g1 h1 hguard htests
    have hbound := h.below_bound st
    have inside1 := inside.later st.sound g1 hbound below
    exact (h1.lift st1 (inside1.bothEdges st1.sound hguard htests (g1 hbound)
      (g1 below))).mono fun _ _ _ _ _ q => ⟨q.2, q.1⟩
  split
  · exact .pure st ⟨h, ⟨below, below⟩, inside, inside⟩
  · split
    · next subject =>
      refine (h.calmWith st (subject.safe_clauseGuard safe_guardFacts st.sound).weaken
        (leads_clauseGuard x subject tests)).bind
        fun guard s1 t1 st1 g1 ⟨hguard, htests, h1⟩ => ?_
      exact edges guard st1 g1 h1 hguard (htests.mono fun _ hask htest =>
        absurd (hask.1.symm.trans htest) (by decide))
    · exact edges .vacuous st (.refl t) h trivial trivial

theorem follows_openClause {subject : Option SwitchSubject}
    {state : SwitchState} {group : List Case}
    (hgroup : ∀ clause ∈ group, ∀ e, clause.test = some e → e.Avoids (P.loose.Forbids x R))
    (below : t.Has state.residual) (inside : InRegion x R P.bound t state.residual)
    (st : Stands s t) (h : P.loose.At x R s t) :
    Steps s t (openClause c subject before span state group)
      (openClause c' subject before span state group) fun residual s' t' =>
        P.loose.At x R s' t' ∧ t'.Has residual ∧ InRegion x R P.bound t' residual := by
  refine Steps.bind (Q := fun _ s' t' => P.loose.At x R s' t')
    (.forM st h fun test htest s1 t1 st1 _ h1 => ?_) fun _ s1 t1 st1 g1 h1 => ?_
  · obtain ⟨clause, hclause, htest⟩ := mem_filterMap.1 htest
    exact (hc.plain (hgroup clause hclause test htest)).ignore.loose st1 h1
  · have inside := inside.later st.sound g1 (h.below_bound st) below
    refine (follows_enterClause P.loose subject _ _ (g1 below) inside st1 h1).bind
      fun envs s2 t2 st2 _ ⟨h2, hbelow, entryIn, residualIn⟩ => ?_
    refine (h2.setEnv (P := P.loose) st2 hbelow.1 entryIn fun _ e => nomatch e).bind
      fun _ s3 t3 st3 g3 h3 => ?_
    refine (h3.calm st3 (keeps_recordFrom st3.sound _ _ _) (does_recordFrom _ _ _)).bind
      fun _ s4 t4 st4 g4 h4 => .pure st4 ⟨h4.2, (g3.trans g4) hbelow.2, ?_⟩
    exact residualIn.later st2.sound (g3.trans g4) (h2.below_bound st2) hbelow.2

theorem follows_runClause (hbody : P.Admits x R (clauseBody group))
    (st : Stands s t) (h : P.loose.At x R s t) :
    Steps s t (runClause c group) (runClause c' group) fun breaks s' t' => P.loose.At x R s' t' ∧
      ∀ env ∈ breaks, t'.Has env ∧ InRegion x R P.bound t' env := by
  refine (follows_pushBreaks st h).bind fun _ s1 t1 st1 _ h1 => ?_
  have admits : (P.withBreaks ([] :: P.breaks)).Admits x R (clauseBody group) :=
    hbody.of_column rfl
  refine (hc.block _ admits st1 h1).bind fun _ s2 t2 st2 _ h2 => ?_
  exact (follows_popBreaks st2 h2).mono fun _ _ _ _ _ h => ⟨h.1, h.2.2⟩

omit hc in
theorem admits_clauseBody
    (h : ∀ clause ∈ group, P.Admits x R clause.body) : P.Admits x R (clauseBody group) := by
  unfold clauseBody
  cases hlast : group.getLast? with
  | none => exact .nil
  | some clause => exact h clause (mem_of_getLast? hlast)

theorem follows_checkClause (P : Point) {subject : Option SwitchSubject}
    {span : Span} {state : SwitchState} {group : List Case}
    (hgroup : ∀ clause ∈ group, (∀ e, clause.test = some e → e.Avoids (P.Forbids x R)) ∧
      P.Admits x R clause.body)
    (hstate : SwitchState.Inside x R P.bound t state) (st : Stands s t) (h : P.loose.At x R s t) :
    Steps s t (checkClause c subject before span state group)
      (checkClause c' subject before span state group) fun state s' t' =>
        SwitchState.Inside x R P.bound t' state ∧ P.loose.At x R s' t' := by
  refine (follows_openClause hc (fun clause hclause e he =>
    ((hgroup clause hclause).1 e he).mono fun _ => .loose) hstate.1.1 hstate.2.1 st h).bind
    fun residual s1 t1 st1 g1 ⟨h1, below, residualIn⟩ => ?_
  refine (follows_runClause hc (admits_clauseBody fun clause hclause => (hgroup clause hclause).2)
    st1 h1).bind fun breaks s2 t2 st2 g2 ⟨h2, hbreaks⟩ => .get ?_
  have hbound2 := h2.below_bound st2
  have hstate2 := hstate.later st.sound (g1.trans g2) (h.below_bound st)
  have residual2 := residualIn.later st1.sound g2 (h1.below_bound st1) below
  refine (h2.setEnv (P := P.loose) st2 below_nil .empty fun _ e => nomatch e).bind
    fun _ s3 t3 st3 g3 h3 => .pure st3 ⟨?_, h3⟩
  refine SwitchState.Inside.later (t := t2) ⟨⟨g2 below, ?_⟩, residual2, ?_⟩ st2.sound g3
    hbound2
  · refine below_append.2 ⟨below_append.2 ⟨hstate2.1.2, fun env henv => (hbreaks env henv).1⟩, ?_⟩
    exact below_singleton.2 st2.below.env
  · intro env henv
    rcases mem_append.1 henv with henv | henv
    · rcases mem_append.1 henv with henv | henv
      · exact hstate2.2.2 env henv
      · exact (hbreaks env henv).2
    · obtain rfl := mem_singleton.1 henv
      exact h2.env

omit hc in
theorem follows_finishSwitch (P : Point) (subject : Option SwitchSubject)
    {declared : Option TypeId} (hdeclared : t.Has declared) (span : Span)
    (hstate : SwitchState.Inside x R P.bound t state) (st : Stands s t) (h : P.At x R s t) :
    Steps s t (finishSwitch subject declared before span state)
      (finishSwitch subject declared before span state) fun state s' t' =>
        SwitchState.Inside x R P.bound t' state ∧ P.At x R s' t' := by
  unfold finishSwitch
  split
  · exact .pure st ⟨hstate, h⟩
  · extract_lets left finish
    have hleft : t.Has left := by
      intro id hid
      obtain ⟨subject, _, hid⟩ := Option.bind_eq_some_iff.1 hid
      exact TypeEnv.below_get? hstate.1.1 _ id hid
    have finish_follows : ∀ s1 t1, Stands s1 t1 → t.Continues t1 → P.At x R s1 t1 →
        Steps s1 t1 (finish ⟨⟩) (finish ⟨⟩) fun state s' t' =>
          SwitchState.Inside x R P.bound t' state ∧ P.At x R s' t' := by
      intro s1 t1 st1 g1 h1
      have hstate := hstate.later st.sound g1 (h.below_bound st)
      dsimp only [finish]
      split
      · exact .pure st1 ⟨hstate, h1⟩
      · refine .pure st1 ⟨⟨⟨hstate.1.1, below_append.2 ⟨hstate.1.2, below_singleton.2 hstate.1.1⟩⟩,
          hstate.2.1, fun env henv => ?_⟩, h1⟩
        rcases mem_append.1 henv with henv | henv
        · exact hstate.2.2 env henv
        · exact mem_singleton.1 henv ▸ hstate.2.1
    split
    · next subject' declared' left' heq =>
      obtain ⟨-, heq⟩ := Prod.mk.inj heq
      obtain ⟨hd, hl⟩ := Prod.mk.inj heq
      exact (h.calm st (keeps_reportMissing st.sound (hdeclared declared' hd)
        (hleft left' hl)) does_reportMissing).bind
        fun _ s1 t1 st1 g1 h1 => finish_follows s1 t1 st1 g1 h1.2
    · exact finish_follows s t st (.refl t) h

omit hc in
theorem mem_of_mem_groupCases {cases : List Case} {clause : Case}
    (hgroup : group ∈ groupCases cases) (hclause : clause ∈ group) : clause ∈ cases := by
  fun_induction groupCases cases generalizing group with grind

theorem follows_checkSwitch (P : Point) {subject : Expr} {cases : List Case}
    (hswitch : P.Allows x R (.switch subject cases)) (st : Stands s t) (h : P.At x R s t) :
    Steps s t (checkSwitch c subject cases span) (checkSwitch c' subject cases span)
      fun _ s' t' => P.loose.At x R s' t' := by
  refine (hc.plain (hswitch.parts.part (.head _)) s st h).bind fun _ s1 t1 st1 _ h1 => ?_
  extract_lets subject'
  refine .get ?_
  extract_lets declared
  have hdeclared : t1.Has declared := by
    intro id hid
    obtain ⟨subject, _, hid⟩ := Option.bind_eq_some_iff.1 hid
    exact CheckState.below_value? st1.below _ id hid
  have start : SwitchState.Inside x R P.bound t1 { residual := s1.env } :=
    ⟨⟨st1.below.env, below_nil⟩, h1.2.env, fun _ h => nomatch h⟩
  refine Steps.bind (.foldlM (J := fun state s' t' =>
    SwitchState.Inside x R P.bound t' state ∧ P.loose.At x R s' t') st1 ⟨start, h1.2.loose⟩
    fun group hgroup state s2 t2 st2 _ h2 => ?_) fun state s2 t2 st2 g2 ⟨hstate, h2⟩ => ?_
  · refine follows_checkClause hc P (fun clause hclause => ?_) h2.1 st2 h2.2
    have hclause := mem_of_mem_groupCases hgroup hclause
    exact ⟨fun e he => hswitch.parts.part (.tail _ (mem_filterMap.2 ⟨clause, hclause, he⟩)),
      hswitch.admits rfl (hswitch.parts.block rfl (mem_map_of_mem hclause)) fun h =>
      StmtKind.opens_case h hclause⟩
  refine (follows_finishSwitch P.loose subject' (g2 hdeclared) span hstate st2
    h2).bind fun state s3 t3 st3 _ ⟨hstate, h3⟩ => ?_
  have joined := InRegion.join st3.sound (h3.below_bound st3) fun env henv =>
    ⟨hstate.1.2 env henv, hstate.2.2 env henv⟩
  refine (h3.lift st3 joined).bind fun env s4 t4 st4 _ ⟨⟨below, inside⟩, h4⟩ => ?_
  refine (h4.setEnv (P := P.loose) st4 below inside fun _ e => nomatch e).bind
    fun _ s5 t5 st5 _ h5 => ?_
  exact (h5.calm st5 (keeps_recordFrom st5.sound _ _ _) (does_recordFrom _ _ _)).mono
    fun _ _ _ _ _ h => h.2

end Statements

end Checking

end GradualTyping
