/-
# Following a variable through expressions

Checks follow a variable if those of expressions stay at their point and those of blocks
inside their scope.  As the checks of a program are built from those of its parts, each
function of the checker is followed over checks that follow the variable.

A function body starts from declared types.  A region that is not open to them is left
there: inside the body nothing is known of the variable but what the scopes say, and
behind it the environment is the one before.
-/

import GradualTyping.Proofs.Tracking.Points

namespace GradualTyping

open TypeTable List

variable {x : String} {R : Region} {s s' : CheckState} {t t' : TypeTable}

namespace Point

variable {P : Point}

/-- A block may be checked at a point. -/
structure Admits (x : String) (R : Region) (P : Point) (body : List Stmt) : Prop where
  avoids : BlockAvoids (P.loose.Forbids x R) body
  scope {p : ScopePattern} : P.ForbidsScope x R p → p.block body = false

/-- A function may be checked at a point. -/
structure AdmitsFunction (x : String) (R : Region) (P : Point) (params : List Param)
    (rest : Option Param) (body : FunctionBody Expr Stmt) : Prop where
  avoids : BodyAvoids (fun p => P.Forbids x R p ∧ p.inside = true) body
  scope {p : ScopePattern} : P.ForbidsScope x R p → p.function params rest body = false
  param : ¬R.assignable → isParam x params rest = false

theorem Admits.fits {body : List Stmt} (h : P.Admits x R body) :
    (Opening.block x body).Fits R where
  assignable {mutable} enters := Classical.not_not.1 fun hR => by
    obtain ⟨st, hst, hx⟩ := any_eq_true.1 enters
    have none := (h.avoids st hst).whole (.declares hR)
    have none := Bool.or_eq_false_iff.1 (Bool.or_eq_false_iff.1 none).1
    cases mutable with
    | true => exact absurd hx (by rw [none.1]; decide)
    | false => exact absurd hx (by rw [none.2]; decide)
  stays {mutable} tracked enters := by
    have clash : (_ && leavesBlock body) = false :=
      (Bool.or_eq_false_iff.1 (h.scope (.clashes tracked))).1
    have either : (introducesIn x true body || introducesIn x false body) = true := by
      cases mutable with
      | true => exact Bool.or_eq_true_iff.2 (.inl enters)
      | false => exact Bool.or_eq_true_iff.2 (.inr enters)
    rwa [either, Bool.true_and] at clash

end Point

namespace Point

/-- From every state at a point two checks do the same: they come back to the point, with an
answer of the table. -/
def Stays {α : Type} [Bounded α] (x : String) (R : Region) (P : Point) (t : TypeTable)
    (c c' : CheckM α) : Prop :=
  ∀ s, Stands s t → P.At x R s t → Steps s t c c' (P.Answers x R)

namespace Stays

variable {P : Point} {α β γ : Type} [Bounded α] [Bounded β] {c c' : CheckM α} {f f' : α → CheckM β}

theorem pure {a : α} (h : t.Has a) : P.Stays x R t (Pure.pure a) (Pure.pure a) :=
  fun _ st here => .pure st ⟨h, here⟩

theorem bind (h : P.Stays x R t c c')
    (k : ∀ t1 a, t1.Sound → t.Continues t1 → t1.Has a → P.Stays x R t1 (f a) (f' a)) :
    P.Stays x R t (c >>= f) (c' >>= f') :=
  fun s st here => (h s st here).bind fun a s1 t1 st1 g1 h1 =>
    k t1 a st1.sound g1 h1.1 s1 st1 h1.2

/-- A calm computation stays at every point. -/
theorem calm (k : Keeps Continues t c fun t' a => t'.Has a) (hc : Calm c) : P.Stays x R t c c :=
  fun _ st here => here.calm st k hc

theorem lift {o : TableM α} (k : Safe t o) : P.Stays x R t (liftM o : CheckM α) (liftM o) :=
  fun _ st here => here.lift st k

theorem get {f f' : CheckState → CheckM β}
    (k : ∀ s, Stands s t → P.At x R s t → P.Stays x R t (f s) (f' s)) :
    P.Stays x R t (MonadStateOf.get >>= f) (MonadStateOf.get >>= f') :=
  fun s st here => .get (k s st here s st here)

theorem getTable {f f' : TypeTable → CheckM β} (k : P.Stays x R t (f t) (f' t)) :
    P.Stays x R t (getThe TypeTable >>= f) (getThe TypeTable >>= f') :=
  fun s st here => .getTable (k s st here)

theorem mapM {ys : List γ} {f f' : γ → CheckM α}
    (h : ∀ y ∈ ys, ∀ t1, t1.Sound → t.Continues t1 → P.Stays x R t1 (f y) (f' y)) :
    P.Stays x R t (ys.mapM f) (ys.mapM f') :=
  fun _ st here => .mapM st here fun y hy s1 t1 st1 g1 h1 => h y hy t1 st1.sound g1 s1 st1 h1

theorem forM {ys : List γ} {f f' : γ → CheckM PUnit}
    (h : ∀ y ∈ ys, ∀ t1, t1.Sound → t.Continues t1 → P.Stays x R t1 (f y) (f' y)) :
    P.Stays x R t (ys.forM f) (ys.forM f') := by
  refine fun s st here => (Steps.forM (J := P.At x R) st here fun y hy s1 t1 st1 g1 h1 => ?_).mono
    fun _ _ _ _ _ h1 => ⟨trivial, h1⟩
  exact (h y hy t1 st1.sound g1 s1 st1 h1).mono fun _ _ _ _ _ h2 => h2.2

/-- The answer does not matter. -/
theorem ignore (h : P.Stays x R t c c') :
    P.Stays x R t (do let _ ← c; Pure.pure ()) (do let _ ← c'; Pure.pure ()) :=
  h.bind fun _ _ _ _ _ => .pure trivial

theorem loose (h : P.Stays x R t c c') (st : Stands s t) (here : P.At x R s t) :
    Steps s t c c' fun _ s' t' => P.loose.At x R s' t' :=
  (h s st here).mono fun _ _ _ _ _ h1 => h1.2.loose

/-- The type of an expression is recorded. -/
theorem record (s : t.Sound) {id : Nat} {type : TypeId} (h : t.Has type) :
    P.Stays x R t (modify fun s => { s with exprTypes := s.exprTypes.insert id type } : CheckM PUnit)
      (modify fun s => { s with exprTypes := s.exprTypes.insert id type }) :=
  .calm (Checking.keeps_change s fun _ hst => { hst with
    exprTypes := below_insert_treeMap hst.exprTypes h }) (.change fun _ => ⟨rfl, rfl, rfl, rfl⟩)

end Stays

end Point

/-- Two checks do the same and follow a variable. -/
structure Checks.Follows (c c' : Checks) (x : String) (R : Region) : Prop where
  expr {P : Point} {e : Expr} {expected : Option TypeId} {t : TypeTable} :
    e.Avoids (P.Forbids x R) → t.Has expected → P.Stays x R t (c.expr e expected) (c'.expr e expected)
  statements (P : Point) {body : List Stmt} {s : CheckState} {t : TypeTable} :
    P.Admits x R body → Stands s t → P.Amid x R (.block x body) s t →
    Steps s t (c.statements body) (c'.statements body) fun _ s' t' =>
      P.Amid x R (.block x body) s' t'

namespace Checks.Follows

variable {c c' : Checks} {P : Point}

theorem plain (hc : c.Follows c' x R) {e : Expr} (he : e.Avoids (P.Forbids x R)) :
    P.Stays x R t (c.plain e) (c'.plain e) :=
  hc.expr he below_none

theorem block (hc : c.Follows c' x R) (P : Point) {body : List Stmt} (hbody : P.Admits x R body)
    (st : Stands s t) (h : P.At x R s t) :
    Steps s t (c.block body) (c'.block body) fun _ s' t' =>
      P.After x R (leavesBlock body) s' t' := by
  have pushed : t.Has { s with scopes := {} :: s.scopes } :=
    (Checking.keeps_pushScope st.sound s st.below).post.2
  refine Steps.bind (Q := fun _ s' t' => P.Amid x R (.block x body) s' t')
    (.change st pushed (.start h rfl)) fun _ s1 t1 st1 _ h1 => ?_
  exact (hc.statements P hbody st1 h1).bind fun _ s2 t2 st2 _ h2 => h2.pop st2

end Checks.Follows

namespace Checking

variable {c c' : Checks} {P : Point}

/-! ### Functions -/

namespace FunctionSite

variable {site : FunctionSite}

theorem follows_bindParams {o : Opening} (hsite : t.Has site) (st : Stands s t)
    (fits : o.Fits R) (henters : isParam x site.params site.rest = true → o.enters true = true)
    (hentered : o.entered = false) (h : P.Amid x R o s t) :
    Steps s t site.bindParams site.bindParams fun _ s' t' => P.Amid x R o s' t' := by
  have back : ∀ {entered s' t'}, P.Amid x R { o with entered } s' t' → P.Amid x R o s' t' :=
    fun h => h.relax rfl rfl fun e => absurd e (by rw [hentered]; decide)
  unfold bindParams
  refine Steps.bind (Q := fun _ s' t' => P.Amid x R o s' t')
    (.forM st h fun p hp s1 t1 st1 g1 h1 => ?_) fun _ s1 t1 st1 g1 h1 => ?_
  · obtain ⟨param, declared⟩ := p
    have hdeclared : t1.Has declared.type :=
      g1 (hsite.1.2.1 declared (of_mem_zip hp).2)
    have named : param.name = x → o.enters true = true := fun e =>
      henters (Bool.or_eq_true_iff.2 (.inl (any_eq_true.2
        ⟨param, (of_mem_zip hp).1, beq_iff_eq.2 e⟩)))
    dsimp only
    split
    · have hundefined : t1.Has TypeId.undefined := st1.sound.below_fixed rfl
      have union := safe_unionOf st1.sound (below_cons.2 ⟨hdeclared,
        below_singleton.2 hundefined⟩)
      refine (h1.calm fits st1 union.weaken.lift (.lift _)).bind fun type s2 t2 st2 _ h2 => ?_
      exact (h2.2.bind fits st2 true h2.1 named).mono fun _ _ _ _ _ h => back h.1
    · exact (h1.bind fits st1 true hdeclared named).mono fun _ _ _ _ _ h => back h.1
  · split
    · next rest element heq =>
      obtain ⟨hrest, helement⟩ := Prod.mk.inj heq
      have below : t.Has element := hsite.1.2.2.1 element helement
      refine (h1.calm fits st1 (safe_arrayOf st1.sound (g1 below)).weaken.lift
        (.lift _)).bind fun type s2 t2 st2 _ h2 => ?_
      refine (h2.2.bind fits st2 true h2.1 fun e => henters (Bool.or_eq_true_iff.2 (.inr ?_))).mono
        fun _ _ _ _ _ h => back h.1
      rw [hrest]
      exact beq_iff_eq.2 e
    · exact .pure st1 h1

/-- A body may be checked at a point. -/
def Admitted (x : String) (R : Region) (P : Point) : FunctionBody Expr Stmt → Prop
  | .block body => P.Admits x R body ∧ (R.tracked → leavesBlock body = false)
  | .expr e => e.Avoids (P.Forbids x R)

theorem follows_checkBody (hc : c.Follows c' x R) (P : Point) (hbody : Admitted x R P site.body)
    (hsite : t.Has site) {expected : Option TypeId} (hexpected : t.Has expected)
    (st : Stands s t) (h : P.At x R s t) :
    Steps s t (site.checkBody c expected) (site.checkBody c' expected) fun _ s' t' =>
      P.loose.At x R s' t' := by
  unfold checkBody
  split
  · next body hb =>
    rw [hb] at hbody
    obtain ⟨admits, stays⟩ := hbody
    exact (hc.block P admits st h).bind fun _ s1 t1 st1 _ h1 =>
      .get (.pure st1 (h1.atPoint stays))
  · next e hb =>
    rw [hb] at hbody
    refine Point.Stays.loose (.bind (hc.expr hbody (hexpected.or hsite.2)) fun t1 type s1 g1 h1 =>
      .bind (.lift (safe_returned s1 h1)) fun t2 type s2 g2 h2 => ?_) st h
    extract_lets finish
    have finish_stays : ∀ t3, t3.Sound → t2.Continues t3 → P.Stays x R t3 (finish ⟨⟩) (finish ⟨⟩) :=
      fun _ s3 g3 => .bind (.calm (keeps_addReturn s3 (g3 h2)) does_addReturn)
        fun _ _ _ _ _ => .pure trivial
    split
    · next target =>
      have htarget : t2.Has target := (g1.trans g2) (below_some.1 hexpected)
      exact .bind (.calm (growing_valueFits s2 h2 htarget) does_valueFits)
        fun t3 _ s3 g3 _ => finish_stays t3 s3 g3
    · exact finish_stays t2 s2 (.refl t2)

/-- A body that a function may have at a point may be checked inside its scope. -/
theorem Admitted.of_function {R' : Region} {o : Opening} {params : List Param}
    {rest : Option Param} {body : FunctionBody Expr Stmt}
    (h : P.AdmitsFunction x R params rest body) (tracks : R'.tracked → R.tracked)
    (hR : R'.assignable) (asks : ¬R'.askable → ¬R.askable) (strict : R'.Strict → R.Strict)
    (henters : o.enters true = true → isParam x params rest = true)
    (hconstant : o.enters false = false) (amid : P.loose.Amid x R' o s t) :
    Admitted x R' (.ofState s x) body := by
  -- scopes that may not be opened inside may not be opened outside, or the parameters clash
  have scope : ∀ {p : ScopePattern}, (Point.ofState s x).ForbidsScope x R' p →
      hasBody p.pattern body = false ∧ ∀ block, body = .block block → p.block block = false := by
    intro p hp
    have outside : P.ForbidsScope x R p → hasBody p.pattern body = false := fun hp =>
      bodyAvoids_iff.1 h.avoids _ ⟨.scope hp, rfl⟩
    cases hp with
    | clashes tracked =>
      have clashes : P.ForbidsScope x R _ := .clashes (tracks tracked)
      refine ⟨outside clashes, fun block e => ?_⟩
      subst e
      exact (Bool.or_eq_false_iff.1 (Bool.or_eq_false_iff.1 (h.scope clashes)).1).2
    | covers hs mutable =>
      rcases amid.mutable_cases mutable with mutable | param
      · have hp : P.ForbidsScope x R (.covers x) := .covers (strict hs) mutable
        refine ⟨outside hp, fun block e => ?_⟩
        subst e
        exact h.scope hp
      · have clash : (_ && _) = false :=
          (Bool.or_eq_false_iff.1 (h.scope (.clashes (strict hs).1))).2
        rw [henters param, Bool.true_and] at clash
        obtain ⟨covers, inside⟩ := Bool.or_eq_false_iff.1 clash
        refine ⟨inside, fun block e => ?_⟩
        subst e
        exact covers
    | functions hs unsteady =>
      rcases amid.steady_cases unsteady with unsteady | ⟨-, constant⟩
      · have hp : P.ForbidsScope x R .functions :=
          .functions (strict hs) fun steady => unsteady (steady.of_column rfl)
        exact Bool.noConfusion (show true = false from h.scope hp)
      · exact absurd constant (by rw [hconstant]; decide)
  have avoids : ∀ p, (Point.ofState s x).Forbids x R' p → hasBody p body = false := by
    intro p hp
    cases hp with
    | scope hp => exact (scope hp).1
    | declares hQ => exact absurd hR hQ
    | asks hask => exact bodyAvoids_iff.1 h.avoids _ ⟨.asks (asks hask), rfl⟩
    | assigns hQ => exact absurd hQ (by simp [Point.ofState, hR])
  cases body with
  | block body =>
    refine ⟨⟨blockAvoids_iff.2 fun p hp => avoids p hp.loose, fun hp => (scope hp).2 body rfl⟩,
      fun tracked => ?_⟩
    have clash := h.scope (.clashes (tracks tracked))
    exact (Bool.or_eq_false_iff.1 (Bool.or_eq_false_iff.1 clash).1).1
  | expr e => exact avoids

/-- **The check of a function comes back to its point**, with the environment as before. -/
theorem follows_check (hc : c.Follows c' x R)
    (inner : R.assignable ∨ c.Follows c' x (.whole R.tracked))
    (hf : P.AdmitsFunction x R site.params site.rest site.body)
    (hsite : t.Has site) : P.Stays x R t (site.check c) (site.check c') := by
  intro s st h
  obtain ⟨R', tracks, hR, hc, h', asks, strict⟩ : ∃ R' : Region, (R'.tracked ↔ R.tracked) ∧
      R'.assignable ∧ c.Follows c' x R' ∧ P.At x R' s t ∧ (¬R'.askable → ¬R.askable) ∧
      (R'.Strict → R.Strict) := by
    rcases inner with hR | hwhole
    · exact ⟨R, .rfl, hR, hc, h, id, id⟩
    · exact ⟨.whole R.tracked, .rfl, trivial, hwhole, h.whole, fun e => absurd trivial e,
        fun ⟨_, _, _, _, _, e⟩ => absurd trivial e⟩
  let o : Opening := .params x site.params site.rest
  have fits : o.Fits R' := ⟨fun _ => hR, fun _ _ => rfl⟩
  have steady : R'.Strict → P.Steady := fun hs => Classical.not_not.1 fun unsteady =>
    Bool.noConfusion (show true = false from hf.scope (.functions (strict hs) unsteady))
  refine .get ?_
  refine (h'.reset st hR steady).bind fun _ s1 t1 st1 g1 h1 => .getTable ?_
  refine (h1.calm st1 (keeps_pushTypeScope st1.sound (Sound.below_paramScope
    (g1 hsite.1.1))) (calm_pushTypeScope _)).bind fun _ s2 t2 st2 g2 h2 => ?_
  have pushed := (keeps_pushScope st2.sound s2 st2.below).post.2
  refine Steps.bind (Q := fun _ s' t' => P.loose.Amid x R' o s' t')
    (.change st2 pushed (.start h2.2 rfl)) fun _ s3 t3 st3 g3 h3 => ?_
  have g3' := g1.trans (g2.trans g3)
  refine (follows_bindParams (g3' hsite) st3 fits id rfl h3).bind
    fun _ s4 t4 st4 g4 h4 => ?_
  have g4' := g3'.trans g4
  refine (h4.calm fits st4 (growing_expectedResult st4.sound (g4' hsite))
    site.does_expectedResult).bind fun expected s5 t5 st5 g5 h5 => ?_
  have g5' := g4'.trans g5
  refine Steps.bind (h5.2.calm fits st5 (keeps_change st5.sound fun st hst => { hst with
    functions := below_cons.2 ⟨⟨h5.1, g5' hsite.2, below_nil⟩, hst.functions⟩ })
    (.change fun _ => ⟨rfl, rfl, rfl, rfl⟩)) fun _ s6 t6 st6 g6 h6 => ?_
  refine (h6.2.calm fits st6 (keeps_recordFrom st6.sound _ _ _) (does_recordFrom _ _ _)).bind
    fun _ s7 t7 st7 g7 h7 => ?_
  have g7' := g6.trans g7
  have admitted : Admitted x R' (.ofState s7 x) site.body :=
    .of_function hf tracks.1 hR asks strict id rfl h7.2
  refine (follows_checkBody hc _ admitted ((g5'.trans g7') hsite) (g7' h5.1) st7
    h7.2.atPoint).bind fun reachesEnd s8 t8 st8 g8 h8 => ?_
  have h8 := h7.2.of_at fits st7 g8 h8
  have g8' := g5'.trans (g7'.trans g8)
  refine .get ?_
  have hreturns : t8.Has ((s8.functions.head?.map (·.returns)).getD []) := by
    cases hf : s8.functions with
    | nil => exact below_nil
    | cons f outer =>
      have hfunctions := st8.below.functions
      rw [hf] at hfunctions
      exact (below_cons.1 hfunctions).1.2.2
  extract_lets returns
  refine Steps.bind (h8.calm fits st8 (keeps_change st8.sound fun st hst => { hst with
    functions := hst.functions.tail }) (.change fun _ => ⟨rfl, rfl, rfl, rfl⟩))
    fun _ s9 t9 st9 g9 h9 => ?_
  refine (h9.2.pop st9).bind fun _ s10 t10 st10 g10 h10 => ?_
  refine ((h10.atPoint fun _ => rfl).calm st10 (keeps_popTypeScope st10.sound) calm_popTypeScope).bind
    fun _ s11 t11 st11 g11 h11 => ?_
  have g11' := g9.trans (g10.trans g11)
  have g := g8'.trans g11'
  refine Steps.bind (Q := fun _ s' t' => t11 = t' ∧ P.At x R s' t')
    (.change st11 { st11.below with env := g st.below.env } ⟨rfl, h11.2.column,
      fun tracked => h11.2.breaks (tracks.2 tracked),
      h.env.later st.sound g (h.below_bound st) st.below.env, h.fixed⟩)
    fun _ s12 t12 st12 g12 ⟨same, h12⟩ => ?_
  subst same
  split
  · exact .pure st12 ⟨(g hsite).1.2.2.2.1, h12⟩
  · exact h12.lift st12 (safe_inferredResult st12.sound (g hsite)
      (g11' hreturns))

end FunctionSite

section Expressions

variable (hc : c.Follows c' x R) (inner : R.assignable ∨ c.Follows c' x (.whole R.tracked))
variable {expected : Option TypeId} {span : Span}
variable {elements args : List Expr} {f : Signature} {guard : Guard} {e value : Expr}

include hc

section Functions

include inner

theorem follows_checkFunctionExpr (f : FunctionExpr Expr Stmt)
    (hf : P.AdmitsFunction x R f.params none f.body) (s : t.Sound) (hexpected : t.Has expected) :
    P.Stays x R t (checkFunctionExpr c f expected span) (checkFunctionExpr c' f expected span) := by
  unfold checkFunctionExpr
  extract_lets checked checked'
  have checked_stays : ∀ t1 contextual, t1.Sound → t1.Has contextual →
      P.Stays x R t1 (checked contextual) (checked' contextual) := by
    intro t1 contextual s1 hcontextual
    refine .bind (.calm (growing_pushTypeParams s1 f.typeParams) (calm_pushTypeParams _))
      fun t2 typeParams s2 g2 h2 => ?_
    refine .bind (.calm (growing_exprParams s2 (g2 hcontextual))
      does_exprParams) fun t3 params s3 g3 h3 => ?_
    refine .bind (.calm (.mapOption s3 fun type _ => growing_lower s3)
      (.mapOption fun type _ => does_lower)) fun t4 result s4 g4 h4 => ?_
    extract_lets signature
    have hsignature : t4.Has signature :=
      ⟨(g3.trans g4) h2, g4 h3, below_none, h4.getD s4.below_any, below_none⟩
    refine .bind (.lift (safe_contextualResult s4 ((g2.trans (g3.trans g4)) hcontextual)))
      fun t5 offered s5 g5 h5 => ?_
    extract_lets site
    have hsite : t5.Has site := ⟨g5 hsignature, h5⟩
    refine .bind (FunctionSite.follows_check hc inner hf hsite) fun t6 result s6 g6 h6 => ?_
    refine .bind (.calm (keeps_popTypeScope s6) calm_popTypeScope) fun t7 _ s7 g7 _ => ?_
    have hsignature := (g5.trans (g6.trans g7)) hsignature
    exact .lift (safe_functionOf s7 ⟨hsignature.1, hsignature.2.1, hsignature.2.2.1, g7 h6,
      hsignature.2.2.2.2⟩)
  split
  · exact .bind (.lift (safe_functionOf? s (below_some.1 hexpected))) fun t1 contextual s1 _ h1 =>
      checked_stays t1 contextual s1 h1
  · exact checked_stays t none s below_none

end Functions

/-! ### Objects and arrays -/

theorem follows_memberProperties (m : ObjectMember Expr)
    (hm : m.value.Avoids (P.Forbids x R)) (s : t.Sound) (hexpected : t.Has expected) :
    P.Stays x R t (memberProperties c expected m) (memberProperties c' expected m) := by
  unfold memberProperties
  split
  · next name value =>
    extract_lets typed typed'
    have typed_stays : ∀ t1 fieldExpected, t1.Has fieldExpected →
        P.Stays x R t1 (typed fieldExpected) (typed' fieldExpected) := by
      intro t1 fieldExpected hfield
      refine .bind (hc.expr hm hfield) fun t2 type s2 g2 h2 => ?_
      exact .bind (.lift (safe_widenFor s2 h2 (g2 hfield))) fun t3 type s3 _ h3 =>
        .pure (below_singleton.2 h3)
    split
    · exact .bind (.lift (safe_expectedField? s (below_some.1 hexpected)))
        fun t1 fieldExpected _ _ h1 => typed_stays t1 fieldExpected h1
    · exact typed_stays t none below_none
  · next value =>
    refine .bind (hc.plain hm) fun t1 type s1 _ h1 => ?_
    refine .bind (.lift (safe_evaluateNode s1 h1)) fun t2 node s2 _ h2 =>
      .pure (Bounded.Below.map fun p hp => ?_)
    have hps : t2.Has ((node.object?.map (·.properties)).getD []) :=
      Bounded.Below.getD (below_map_option (below_object? h2) fun _ ho => ho.1) below_nil
    exact hps p hp

theorem follows_checkObject {members : List (ObjectMember Expr)}
    (hms : (ExprKind.object members).Avoids (P.Forbids x R)) (hexpected : t.Has expected) :
    P.Stays x R t (checkObject c members expected) (checkObject c' members expected) := by
  refine .bind (.mapM fun m hm t1 s1 g1 => ?_) fun t1 lists s1 _ h1 => ?_
  · exact follows_memberProperties hc m (hms.part rfl (mem_map_of_mem hm)) s1
      (g1 hexpected)
  · refine .lift (safe_objectOf s1 (fun p hp => ?_) below_none)
    obtain ⟨l, hl, hp⟩ := mem_flatten.1 hp
    exact h1 l hl p hp

theorem follows_checkTuple {shape : TupleShape}
    (hes : ∀ e ∈ elements, e.Avoids (P.Forbids x R)) (hshape : t.Has shape) :
    P.Stays x R t (checkTuple c elements shape) (checkTuple c' elements shape) := by
  refine .bind (.mapM fun p hp t1 s1 g1 => ?_) fun t1 types s1 _ h1 =>
    .lift (safe_tupleOf s1 h1 below_none)
  have hexpected := below_at? (g1 hshape) p.1
  refine .bind (hc.expr (hes p.2 (of_mem_zip hp).2) hexpected) fun t2 type s2 g2 h2 => ?_
  exact .bind (.lift (safe_widenFor s2 h2 (g2 hexpected))) fun _ _ _ _ h3 => .pure h3

theorem follows_checkElements
    (hes : ∀ e ∈ elements, e.Avoids (P.Forbids x R)) (s : t.Sound) (hexpected : t.Has expected) :
    P.Stays x R t (checkElements c elements expected) (checkElements c' elements expected) := by
  unfold checkElements
  split
  · exact .lift (safe_arrayOf s (hexpected.getD s.below_any))
  · refine .bind (.mapM fun e he t1 _ g1 => hc.expr (hes e he) (g1 hexpected))
      fun t1 types s1 g1 h1 => ?_
    refine .bind (.lift (safe_unionOf s1 h1)) fun t2 joined s2 g2 h2 => ?_
    exact .bind (.lift (safe_widenFor s2 h2 ((g1.trans g2) hexpected)))
      fun t3 type s3 _ h3 => .lift (safe_arrayOf s3 h3)

theorem follows_checkArray (hes : (ExprKind.array elements).Avoids (P.Forbids x R)) (s : t.Sound)
    (hexpected : t.Has expected) :
    P.Stays x R t (checkArray c elements expected) (checkArray c' elements expected) := by
  refine .bind (.calm (.mapOption s fun e he => (safe_evaluateNode s (hexpected e he)).weaken.lift)
    (.mapOption fun _ _ => .lift _)) fun t1 node s1 _ h1 => ?_
  have elements_avoid : ∀ e ∈ elements, e.Avoids (P.Forbids x R) := fun e => hes.part rfl
  split
  · next shape =>
    have hnode : t1.Has (Ty.tuple shape) := below_some.1 h1
    exact follows_checkTuple hc elements_avoid hnode
  · next element =>
    have hnode : t1.Has (Ty.array element) := below_some.1 h1
    exact follows_checkElements hc elements_avoid s1 (below_some.2 hnode)
  · exact follows_checkElements hc elements_avoid s1 below_none

/-! ### Calls -/

theorem follows_checkArguments (hargs : ∀ e ∈ args, e.Avoids (P.Forbids x R)) (hf : t.Has f) :
    P.Stays x R t (checkArguments c f args) (checkArguments c' f args) := by
  unfold checkArguments
  extract_lets places
  refine .bind (.mapM fun p hp t1 _ g1 => ?_) fun t1 first s1 g1 h1 => ?_
  · dsimp only
    split
    · exact .pure below_none
    · exact .bind (hc.expr (hargs p.2 (of_mem_zip hp).2) (below_paramAt? (g1 hf) p.1))
        fun _ _ _ _ h => .pure (below_some.2 h)
  · split
    · refine .bind (.lift (safe_partialArguments s1 (g1 hf) h1)) fun t2 known s2 g2 h2 => ?_
      refine .mapM fun p hp t3 s3 g3 => ?_
      obtain ⟨⟨i, arg⟩, type⟩ := p
      have hplace := (of_mem_zip hp).1
      have htype := h1 type (of_mem_zip hp).2
      have g3' := g1.trans (g2.trans g3)
      dsimp only
      split
      · next type => exact .pure ((g2.trans g3) (below_some.1 htype))
      · refine .bind (.calm (.mapOption s3 fun param hparam => .lift (.weaken (safe_substitute s3
          (g3 h2) (below_paramAt? (g3' hf) _ param hparam))))
          (.mapOption fun _ _ => .lift _)) fun t4 contextual _ _ h4 => ?_
        exact hc.expr (hargs arg (of_mem_zip hplace).2) h4
    · exact .pure (.map fun o ho => (h1 o ho).getD s1.below_any)

theorem follows_instantiateCall {callee : Expr} {typeArgs : List TypeExpr}
    (hargs : ∀ e ∈ args, e.Avoids (P.Forbids x R)) (hf : t.Has f) :
    P.Stays x R t (instantiateCall c f callee typeArgs args span)
      (instantiateCall c' f callee typeArgs args span) := by
  unfold instantiateCall
  extract_lets unchecked
  have hunchecked : ∀ n, Below n unchecked := fun n => .map fun _ _ => below_none (α := TypeId)
  split
  · exact .pure ⟨hf, hunchecked _⟩
  split
  · refine .bind (.mapM fun type _ t1 s1 _ => .calm (growing_lower s1)
      does_lower) fun t1 explicit s1 g1 h1 => ?_
    exact .bind (.calm (growing_instantiateExplicit s1 (g1 hf) h1)
      does_instantiateExplicit) fun _ _ _ _ h2 =>
        .pure ⟨h2, hunchecked _⟩
  · refine .bind (follows_checkArguments hc hargs hf) fun t1 types s1 g1 h1 => ?_
    refine .bind (.calm (growing_instantiateInferred s1 (g1 hf) h1)
      does_instantiateInferred) fun t2 g s2 g2 h2 => .pure ⟨h2, ?_⟩
    exact Bounded.Below.map fun type htype => below_some.2 (g2 (h1 type htype))

theorem follows_checkArgument (i : Nat) {arg : Expr}
    (harg : arg.Avoids (P.Forbids x R)) {known : Option TypeId} (s : t.Sound) (hf : t.Has f)
    (hknown : t.Has known) :
    P.Stays x R t (checkArgument c f i arg known) (checkArgument c' f i arg known) := by
  unfold checkArgument
  extract_lets param typed
  have hparam : t.Has param := below_paramAt? hf i
  clear_value param
  have typed_stays : ∀ t1 type, t1.Sound → t.Continues t1 → t1.Has type →
      P.Stays x R t1 (typed type) (typed type) := by
    intro t1 type s1 g1 htype
    dsimp only [typed]
    split
    · next target =>
      exact .ignore (.calm (growing_valueFits s1 htype (g1 (below_some.1 hparam)))
        does_valueFits)
    · exact .pure trivial
  split
  · exact typed_stays t _ s (.refl t) (below_some.1 hknown)
  · exact .bind (hc.expr harg hparam) fun t1 type s1 g1 h1 => typed_stays t1 type s1 g1 h1

theorem follows_checkCall (kind : CallKind) {callee : Expr} {typeArgs : List TypeExpr}
    (hcallee : callee.Avoids (P.Forbids x R)) (hargs : ∀ e ∈ args, e.Avoids (P.Forbids x R)) :
    P.Stays x R t (checkCall c kind callee typeArgs args span)
      (checkCall c' kind callee typeArgs args span) := by
  refine .bind (hc.plain hcallee) fun t1 calleeType s1 _ h1 => ?_
  refine .bind (.lift (safe_evaluateNode s1 h1)) fun t2 node s2 _ h2 => ?_
  split
  · extract_lets others others'
    have others_stay : ∀ t3, P.Stays x R t3 (others ⟨⟩) (others' ⟨⟩) := fun t3 =>
      .bind (.forM fun arg harg _ _ _ => .ignore (hc.plain (hargs arg harg)))
        fun _ _ s4 _ _ => .pure s4.below_any
    split
    · exact others_stay t2
    · exact .getTable (.bind (.calm (keeps_report s2 _) (does_report _)) fun t3 _ _ _ _ =>
        others_stay t3)
  · next f hf =>
    have hf : t2.Has f := below_callable? kind h2 f hf
    extract_lets applied applied'
    have applied_stays : ∀ t3, t2.Continues t3 → P.Stays x R t3 (applied ⟨⟩) (applied' ⟨⟩) := by
      intro t3 g3
      refine .bind (follows_instantiateCall hc hargs (g3 hf))
        fun t4 p s4 _ hp => ?_
      obtain ⟨f, types⟩ := p
      refine .bind (.forM fun q hq t5 s5 g5 => ?_) fun t5 _ s5 g5 _ => ?_
      · obtain ⟨⟨i, arg⟩, type⟩ := q
        exact follows_checkArgument hc i (hargs arg (of_mem_zip (of_mem_zip hq).1).2) s5
          (g5 hp.1) (g5 (hp.2 type (of_mem_zip hq).2))
      · have hf := g5 hp.1
        split
        · next predicate hpredicate =>
          exact .bind (.calm (keeps_change s5 fun st hst => { hst with
            callPredicates := below_insert_treeMap hst.callPredicates
              (hf.2.2.2.2 predicate hpredicate) }) (.change fun _ => ⟨rfl, rfl, rfl, rfl⟩))
            fun t6 _ s6 g6 _ => .pure (g6 hf.2.2.2.1)
        · exact .pure hf.2.2.2.1
    split
    · exact applied_stays t2 (.refl t2)
    · exact .bind (.calm (keeps_report s2 _) (does_report _)) fun t3 _ _ g3 _ =>
        applied_stays t3 g3

/-! ### Operators -/

omit hc in
/-- A condition asks for the type of the name only where the region allows that. -/
theorem tests_allowed {cond : Expr} (hcond : ¬R.askable → cond.asksType x = false)
    (h : guard.Tests x fun test => test.asksType = true → cond.asksType x = true) :
    guard.Tests x fun test => test.asksType = true → R.askable :=
  h.mono fun _ hask htest => Classical.not_not.1 fun e =>
    absurd (hask htest) (by rw [hcond e]; decide)

theorem follows_checkFirst {first : Expr} (hfirst : first.Avoids (P.Forbids x R))
    (st : Stands s t) (h : P.At x R s t) :
    Steps s t (checkFirst c first) (checkFirst c' first) fun p s' t' =>
      t'.Has p ∧ P.At x R s' t' ∧
      p.2.Tests x fun test => test.asksType = true → first.asksType x = true := by
  refine (hc.plain hfirst s st h).bind fun type s1 t1 st1 g1 h1 => ?_
  exact (h1.2.calmWith st1 (growing_guardOf st1.sound) (leads_guardOf x)).bind
    fun guard s2 t2 st2 g2 ⟨hguard, htests, h2⟩ =>
      .pure st2 ⟨⟨g2 h1.1, hguard⟩, h2, htests⟩

theorem follows_checkWhere (hguard : t.Has guard)
    (htests : guard.Tests x fun test => test.asksType = true → R.askable)
    (he : e.Avoids (P.loose.Forbids x R))
    (hexpected : t.Has expected) (st : Stands s t) (h : P.At x R s t) :
    Steps s t (checkWhere c guard e expected) (checkWhere c' guard e expected)
      (P.loose.Answers x R) :=
  (h.assume st hguard htests).bind fun _ s1 _ st1 g1 h1 =>
    hc.expr he (g1 hexpected) s1 st1 h1

theorem follows_checkConditional {cond yes no : Expr}
    (hparts : (ExprKind.conditional cond yes no).Avoids (P.Forbids x R))
    (hcond : ¬R.askable → cond.asksType x = false) (hexpected : t.Has expected) :
    P.Stays x R t (checkConditional c cond yes no expected)
      (checkConditional c' cond yes no expected) := by
  intro s st h
  have avoids : cond.Avoids (P.Forbids x R) := hparts.part rfl (.head _)
  have yesAvoids : yes.Avoids (P.Forbids x R) := hparts.part rfl (.tail _ (.head _))
  have noAvoids : no.Avoids (P.Forbids x R) := hparts.part rfl (.tail _ (.tail _ (.head _)))
  refine (follows_checkFirst hc avoids st h).bind fun p s1 t1 st1 g1 ⟨hp, h1, htests⟩ => .get ?_
  have htests := tests_allowed hcond htests
  refine (follows_checkWhere hc hp.2 htests (yesAvoids.mono fun _ => .loose) (g1 hexpected)
    st1 h1).bind fun yesType s2 t2 st2 g2 h2 => ?_
  have outer := h1.env.later st1.sound g2 (h1.below_bound st1) st1.below.env
  refine (h2.2.setEnv st2 (g2 st1.below.env) outer h1.fixed).bind
    fun _ s3 t3 st3 g3 h3 => ?_
  have g3' := g2.trans g3
  refine (follows_checkWhere hc (Guard.below_negate (g3' hp.2)) htests.negate
    (noAvoids.mono fun _ => .loose) ((g1.trans g3') hexpected) st3 h3).bind
    fun noType s4 t4 st4 g4 h4 => ?_
  have g4' := g3'.trans g4
  have outer := h1.env.later st1.sound g4' (h1.below_bound st1) st1.below.env
  refine (h4.2.setEnv st4 (g4' st1.below.env) outer h1.fixed).bind
    fun _ s5 t5 st5 g5 h5 => ?_
  exact h5.lift st5 (safe_unionOf st5.sound (below_cons.2
    ⟨(g3.trans (g4.trans g5)) h2.1, below_singleton.2 (g5 h4.1)⟩))

omit hc in
theorem tests_edge {A : Test → Prop} (h : guard.Tests x A) {positive : Bool} :
    Guard.Tests x A (if positive then guard else guard.negate) := by
  cases positive with
  | true => exact h
  | false => exact h.negate

theorem follows_checkLogical {isAnd : Bool} {left right : Expr}
    (hleft : left.Avoids (P.Forbids x R)) (hright : right.Avoids (P.Forbids x R))
    (hcond : ¬R.askable → left.asksType x = false) :
    P.Stays x R t (checkLogical c isAnd left right) (checkLogical c' isAnd left right) := by
  intro s st h
  refine (follows_checkFirst hc hleft st h).bind fun p s1 t1 st1 g1 ⟨hp, h1, htests⟩ => .get ?_
  refine (follows_checkWhere hc (Narrowing.below_ite hp.2 (Guard.below_negate hp.2))
    (tests_edge (tests_allowed hcond htests)) (hright.mono fun _ => .loose) below_none
    st1 h1).bind fun rightType s2 t2 st2 g2 h2 => ?_
  have outer := h1.env.later st1.sound g2 (h1.below_bound st1) st1.below.env
  refine (h2.2.setEnv st2 (g2 st1.below.env) outer h1.fixed).bind
    fun _ s3 t3 st3 g3 h3 => ?_
  have hleft := (g2.trans g3) hp.1
  have htest : t3.Has Test.truthy := below_none (α := TypeId)
  refine (h3.lift st3 (safe_narrowByTest st3.sound hleft htest isAnd)).bind
    fun kept s4 t4 st4 g4 h4 => ?_
  exact h4.2.lift st4 (safe_unionOf st4.sound (below_cons.2 ⟨h4.1,
    below_singleton.2 ((g3.trans g4) h2.1)⟩))

theorem follows_checkBinary {op : BinaryOp} {left right : Expr}
    (hparts : (ExprKind.binary op left right).Avoids (P.Forbids x R))
    (hcond : ¬R.askable → ((op == .and || op == .or) && left.asksType x) = false) :
    P.Stays x R t (checkBinary c op left right) (checkBinary c' op left right) := by
  have hleft : left.Avoids (P.Forbids x R) := hparts.part rfl (.head _)
  have hright : right.Avoids (P.Forbids x R) := hparts.part rfl (.tail _ (.head _))
  unfold checkBinary
  split
  · exact follows_checkLogical hc hleft hright hcond
  · exact follows_checkLogical hc hleft hright hcond
  · refine .bind (hc.plain hleft) fun t1 leftType s1 g1 h1 => ?_
    refine .bind (hc.plain hright) fun t2 rightType s2 g2 h2 => ?_
    have hleft := g2 h1
    split
    · refine .bind (.lift (safe_nonNullish s2 hleft)) fun t3 kept s3 g3 h3 => ?_
      exact .lift (safe_unionOf s3 (below_pair.2 ⟨h3, g3 h2⟩))
    case h_7 => exact .pure (s2.below_fixed rfl)
    all_goals exact .lift (safe_arithmeticResult s2 hleft h2 _)

theorem follows_checkUnary {op : UnaryOp} {operand : Expr}
    (hoperand : operand.Avoids (P.Forbids x R)) :
    P.Stays x R t (checkUnary c op operand) (checkUnary c' op operand) := by
  refine .bind (hc.plain hoperand) fun t1 type s1 _ h1 => ?_
  split
  · exact .pure (s1.below_fixed rfl)
  · refine .bind (.lift (safe_evaluateNode s1 h1)) fun t2 node s2 _ h2 => .pure ?_
    exact Narrowing.below_ite (s2.below_fixed rfl) (s2.below_fixed rfl)
  · exact .lift (safe_typeofResult s1)

theorem follows_checkAs (hvalue : value.Avoids (P.Forbids x R)) {type : TypeExpr}
    (s : t.Sound) : P.Stays x R t (checkAs c value type span) (checkAs c' value type span) := by
  refine .bind (.calm (growing_lower s) does_lower) fun t1 target s1 _ h1 => ?_
  refine .bind (hc.expr hvalue (below_some.2 h1)) fun t2 source s2 g2 h2 => ?_
  refine .bind (.lift (safe_overlaps s2 h2 (g2 h1))) fun t3 b s3 g3 _ => ?_
  have htarget := (g2.trans g3) h1
  extract_lets finish
  split
  · exact .pure htarget
  · exact .bind (.calm (keeps_reportMismatch s3) does_reportMismatch)
      fun t4 _ _ g4 _ => .pure (g4 htarget)

/-- An assignment to the name is open to it where the region is. -/
theorem follows_checkAssignName {target : Expr} {name : String}
    (hvalue : value.Avoids (P.Forbids x R)) (hname : name = x → P.fixed = none ∧ R.assignable) :
    P.Stays x R t (checkAssignName c target name value span)
      (checkAssignName c' target name value span) := by
  refine .get fun s st h => ?_
  split
  · exact .bind (.calm (keeps_report st.sound _) (does_report _)) fun _ _ _ _ _ =>
      hc.plain hvalue
  · next declared hdeclared =>
    have below : t.Has declared := CheckState.below_declared? st.below name declared hdeclared
    refine .bind (.record st.sound below) fun t1 _ s1 g1 _ => ?_
    refine .bind (hc.expr hvalue (below_some.2 (g1 below))) fun t2 type s2 g2 h2 => ?_
    have below2 := (g1.trans g2) below
    refine .bind (.calm (growing_valueFits s2 h2 below2) does_valueFits)
      fun t3 isFit s3 g3 _ => ?_
    have htype := g3 h2
    split
    · next fit =>
      have bound : (s.binding? name).isSome = true := (Bool.and_eq_true_iff.1 fit).2
      have below3 := g3 below2
      have safe := safe_narrowByAssignment s3 below3 htype
      have assigned : Keeps Runs t3 (narrowByAssignment declared type) fun t' u =>
          t'.Has u ∧ (name = x → R.Has declared t' u) := by
        by_cases hx : name = x
        · have inside := R.assigned (hname hx).2 s3 below3 htype
          exact ⟨safe.sound, safe.related, safe.post, fun _ => inside.post⟩
        · exact safe.mono fun _ _ _ _ hu => ⟨hu, fun e => absurd e hx⟩
      intro s3' st3 h3
      refine (h3.lift st3 assigned).bind fun u s4 t4 st4 g4 ⟨⟨hu, has⟩, h4⟩ => ?_
      refine Steps.bind (Q := fun _ s' t' => t4 = t' ∧ P.At x R s' t') (.change st4 { st4.below with
        env := TypeEnv.below_insert st4.below.env hu } ⟨rfl, h4.column, h4.breaks, ?_, ?_⟩)
        fun _ s5 t5 st5 g5 ⟨same, h5⟩ => .pure st5 ⟨(g4.trans g5) htype, h5⟩
      · by_cases hx : name = x
        · subst hx
          obtain ⟨b, hb⟩ := Option.isSome_iff_exists.1 bound
          obtain rfl : b.declared = declared := by
            rw [CheckState.declared?, hb] at hdeclared
            exact Option.some.inj hdeclared
          exact h4.env.insert fun _ => ⟨b, h.binding? ▸ hb, has rfl⟩
        · exact h4.env.insert_of_ne hx
      · intro fixed hfixed
        have hx : name ≠ x := fun e => by simp [(hname e).1] at hfixed
        show (s4.env.insert name u).get? x = fixed
        rw [TypeEnv.get?_insert, if_neg hx.symm]
        exact h4.fixed fixed hfixed
    · exact .pure htype

theorem follows_checkAssign {target : Expr}
    (hparts : (ExprKind.assign target value).Avoids (P.Forbids x R))
    (hwhole : (P.fixed.isSome = true ∨ ¬R.assignable) → (target.ident? == some x) = false) :
    P.Stays x R t (checkAssign c target value span) (checkAssign c' target value span) := by
  have htarget : target.Avoids (P.Forbids x R) := hparts.part rfl (.head _)
  have hvalue : value.Avoids (P.Forbids x R) := hparts.part rfl (.tail _ (.head _))
  unfold checkAssign
  split
  · next name hname =>
    refine follows_checkAssignName hc hvalue (fun hx => ?_)
    have free : ¬(P.fixed.isSome = true ∨ ¬R.assignable) := fun e =>
      absurd (hwhole e) (by simp [hname, hx])
    exact ⟨Option.not_isSome_iff_eq_none.1 fun e => free (.inl e),
      Classical.not_not.1 fun e => free (.inr e)⟩
  · refine .bind (hc.plain htarget) fun t1 targetType s1 _ h1 => ?_
    refine .bind (hc.expr hvalue (below_some.2 h1)) fun t2 type s2 g2 h2 => ?_
    exact .bind (.calm (growing_valueFits s2 h2 (g2 h1))
      does_valueFits) fun t3 _ _ g3 _ => .pure (g3 h2)

/-! ### All expressions -/

include inner

theorem follows_exprType (he : e.Avoids (P.Forbids x R))
    (s : t.Sound) (hexpected : t.Has expected) :
    P.Stays x R t (exprType c e expected) (exprType c' e expected) := by
  obtain ⟨id, kind, span⟩ := e
  have parts : kind.Avoids (P.Forbids x R) := he.parts
  cases kind with
  | string value => exact .lift (safe_stringLiteral s)
  | number value => exact .lift (safe_numberLiteral s _)
  | bool value => cases value <;> exact .pure (s.below_fixed rfl)
  | bigint digits => exact .lift (safe_literalType s)
  | null => exact .pure (s.below_fixed rfl)
  | undefined => exact .pure (s.below_fixed rfl)
  | template pieces =>
    refine .bind (.forM fun part hpart t1 _ _ => ?_) fun _ _ s1 _ _ =>
      .pure (s1.below_fixed rfl)
    cases part with
    | text _ => exact .pure trivial
    | embedded part =>
      exact .ignore (hc.plain (parts.part rfl (mem_filterMap.2 ⟨_, hpart, rfl⟩)))
  | ident name =>
    refine .calm (.getThe fun st hst => ?_) (.get fun st => ?_)
    · split
      · next type htype => exact .pure s (CheckState.below_value? hst name type htype)
      · exact (keeps_report s _).bind fun _ _ s1 _ _ => .pure s1 s1.below_any
    · split
      · exact .pure trivial
      · exact (does_report _).bind fun _ _ => .pure trivial
  | this => exact .get fun _ st _ => .pure (st.below.thisType.getD s.below_any)
  | object members => exact follows_checkObject hc parts hexpected
  | array elements => exact follows_checkArray hc parts s hexpected
  | call callee typeArgs args =>
    exact follows_checkCall hc _ (parts.part rfl (.head _))
      (fun _ he => parts.part rfl (.tail _ he))
  | new callee typeArgs args =>
    exact follows_checkCall hc _ (parts.part rfl (.head _))
      (fun _ he => parts.part rfl (.tail _ he))
  | member object property =>
    exact .bind (hc.plain parts) fun t1 type s1 _ h1 =>
      .calm (growing_propertyType s1 h1) does_propertyType
  | index object index =>
    refine .bind (hc.plain (parts.part rfl (.head _))) fun t1 objectType s1 _ h1 => ?_
    exact .bind (hc.plain (parts.part rfl (.tail _ (.head _)))) fun t2 indexType s2 g2 h2 =>
      .calm (growing_indexedType s2 (g2 h1) _) does_indexedType
  | function f =>
    refine follows_checkFunctionExpr hc inner f ⟨parts.function, fun hp => he.whole (.scope hp), ?_⟩
      s hexpected
    exact fun hR => he.whole (.declares hR)
  | binary op left right => exact follows_checkBinary hc parts fun hR => he.whole (.asks hR)
  | unary op operand => exact follows_checkUnary hc parts
  | conditional cond yes no =>
    exact follows_checkConditional hc parts (fun hR => he.whole (.asks hR)) hexpected
  | await value => exact .bind (hc.plain parts) fun t1 type s1 _ h1 => .lift (safe_awaited s1 h1)
  | as_ value type => exact follows_checkAs hc parts s
  | nonNull value =>
    exact .bind (hc.plain parts) fun t1 type s1 _ h1 => .lift (safe_nonNullish s1 h1)
  | assign target value =>
    exact follows_checkAssign hc parts (fun hP => he.whole (.assigns hP))

theorem follows_checkExpr (he : e.Avoids (P.Forbids x R)) (hexpected : t.Has expected) :
    P.Stays x R t (checkExpr c e expected) (checkExpr c' e expected) := by
  intro s st h
  refine Point.Stays.bind (follows_exprType hc inner he st.sound hexpected) (fun t1 type s1 _ h1 => ?_)
    s st h
  exact .bind (.record s1 h1) fun t2 _ _ g2 _ => .pure (g2 h1)

end Expressions

end Checking

end GradualTyping
