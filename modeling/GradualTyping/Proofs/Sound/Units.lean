/-
# Functions, switches and units

What the checker does around the checks of parts: the results of functions, the operands
that a cast compares, the report of a switch, and the state in which a unit starts.  All of
it grows the table, and the types of its answers are in the table that it leaves.
-/

import GradualTyping.Proofs.Sound.Checking
import GradualTyping.Session

namespace GradualTyping

open TypeTable

variable {t : TypeTable}

/-- An expression holds written types only. -/
instance : Bounded Expr := ⟨fun _ _ => True, fun _ _ => trivial⟩

namespace Checking

/-! ### Functions -/

instance : Bounded FunctionSite :=
  ⟨fun n site => Below n site.signature ∧ Below n site.contextual,
    fun h => .imp (Bounded.mono h) (Bounded.mono h)⟩

namespace FunctionSite

variable {site : FunctionSite}

theorem growing_expectedResult (s : t.Sound) (h : t.Has site) : Growing t site.expectedResult := by
  have hresult : t.Has site.signature.result := h.1.2.2.2.1
  unfold expectedResult
  extract_lets result
  split
  · exact .pure s below_none
  split
  · exact .pure s (below_some.2 hresult)
  · refine (safe_declaredAsyncResult? s hresult).weaken.lift.bind fun t1 inner s1 _ hinner => ?_
    split
    · exact .pure s1 hinner
    · refine .readLift s1 rfl ?_
      exact (keeps_report s1 _).bind fun _ _ s2 _ _ => .pure s2 (below_some.2 s2.below_any)

theorem safe_returned (s : t.Sound) {isAsync : Bool} {type : TypeId} (h : t.Has type) :
    Safe t (returned isAsync type) := by
  unfold returned
  split
  · exact safe_unwrapOnce s h
  · exact .pure s h

theorem safe_inferredResult (s : t.Sound) (h : t.Has site) {returns : List TypeId}
    (hreturns : t.Has returns) {reachesEnd : Bool} :
    Safe t (site.inferredResult returns reachesEnd) := by
  unfold inferredResult
  extract_lets joined
  have joined_safe : ∀ t1 type, t1.Sound → t.Runs t1 → t1.Has type →
      Safe t1 (joined type) := by
    intro t1 type s1 r1 htype
    refine (safe_widenFor s1 htype (r1 h.2)).bind fun t2 widened s2 _ hwidened => ?_
    split
    · exact safe_wrapAsyncResult s2 hwidened
    · exact .pure s2 hwidened
  split
  · exact joined_safe t _ s (.refl t) (s.below_fixed rfl)
  · refine (safe_unionOf s ?_).bind fun t1 type s1 r1 htype => joined_safe t1 type s1 r1 htype
    split
    · exact below_append.2 ⟨hreturns, below_singleton.2 (s.below_fixed rfl)⟩
    · exact hreturns

end FunctionSite

theorem growing_exprParams (s : t.Sound) {contextual : Option Signature}
    (h : t.Has contextual) {params : List Param} : Growing t (exprParams contextual params) := by
  refine .mapM s fun p _ t1 s1 g1 => ?_
  dsimp only
  split
  · exact (growing_lower s1).bind fun _ _ s2 _ htype => .pure s2 htype
  · refine .pure s1 (Bounded.Below.getD (α := TypeId) ?_ s1.below_any)
    intro id hid
    obtain ⟨f, rfl, hid⟩ := Option.bind_eq_some_iff.1 hid
    exact g1 (below_paramAt? (below_some.1 h) p.1 id hid)

theorem safe_contextualResult (s : t.Sound) {contextual : Option Signature}
    (h : t.Has contextual) : Safe t (contextualResult contextual) := by
  unfold contextualResult
  split
  · exact .pure s below_none
  · next f =>
    have hf : t.Has f := below_some.1 h
    refine (safe_isOpen s).bind fun t1 b s1 r1 _ => ?_
    split
    · exact .pure s1 below_none
    · exact .pure s1 (below_some.2 (r1 hf.2.2.2.1))

theorem below_propertyType? {n : Nat} {o : Option ObjectShape} (h : Below n o) {name : String} :
    Below n ((o.bind (·.property? name)).map (·.type)) := by
  intro id hid
  obtain ⟨p, hp, rfl⟩ := Option.map_eq_some_iff.1 hid
  obtain ⟨o, rfl, hp⟩ := Option.bind_eq_some_iff.1 hp
  exact below_property? (below_some.1 h) p hp

/-! ### Operands -/

theorem safe_nonNullish (s : t.Sound) {type : TypeId} (h : t.Has type) : Safe t (nonNullish type) :=
  safe_narrowByTest s h (below_none (α := TypeId)) true

theorem below_callable? {n : Nat} (kind : CallKind) {ty : Ty} (h : Below n ty) :
    Below n (callable? kind ty) := by
  unfold callable?
  split
  · exact Narrowing.below_ite (below_some.2 h) below_none
  · exact below_none

theorem safe_overlaps (s : t.Sound) {source target : TypeId} (hsource : t.Has source)
    (htarget : t.Has target) : Safe t (overlaps source target) := by
  refine (repeats_isTop s hsource).safe.bind fun t1 b s1 r1 _ => ?_
  have hsource := r1 hsource
  have htarget := r1 htarget
  cases b with
  | true => exact .pure s1 trivial
  | false =>
    refine (repeats_isTop s1 htarget).safe.bind fun t2 b s2 r2 _ => ?_
    have hsource := r2 hsource
    have htarget := r2 htarget
    cases b with
    | true => exact .pure s2 trivial
    | false =>
      refine (safe_isSubtype s2 hsource htarget).bind fun t3 b s3 r3 _ => ?_
      cases b with
      | true => exact .pure s3 trivial
      | false => exact safe_isSubtype s3 (r3 htarget) (r3 hsource)

/-! ### Switches -/

instance : Bounded SwitchState :=
  ⟨fun n state => Below n state.residual ∧ Below n state.exits,
    fun h => .imp (Bounded.mono h) (Bounded.mono h)⟩

theorem below_onEdge {n : Nat} {dead : Bool} {env : TypeEnv} (h : Below n env) :
    Below n (onEdge dead env) :=
  Narrowing.below_ite (TypeEnv.below_markUnreachable h) h

theorem keeps_reportMissing (s : t.Sound) {subject : SwitchSubject} {declared residual : TypeId}
    (hdeclared : t.Has declared) (hresidual : t.Has residual) {span : Span} :
    Keeps Continues t (reportMissing subject declared residual span) fun _ _ => True := by
  refine .getThe fun st _ => ?_
  split
  · refine (subject.keeps_exhaustiveness s hdeclared hresidual).weaken.lift.bind
      fun t1 found s1 _ _ => ?_
    split
    · exact keeps_report s1 _
    · exact .pure s1 trivial
  · exact .pure s trivial

end Checking

/-! ### Units -/

namespace Checking

theorem safe_builtinObject (s : t.Sound) {name : String} {member : Signature}
    (h : t.Has member) : Safe t (builtinObject name member) :=
  (safe_functionOf s h).bind fun _ _ s1 _ htype =>
    safe_objectOf s1 (below_singleton.2 htype) below_none

theorem safe_builtinValues (s : t.Sound) : Safe t builtinValues := by
  refine (safe_arrayOf s s.below_any).bind fun t1 anyArray s1 _ hany => ?_
  have hunknown := s1.below_unknown
  have hboolean : t1.Has TypeId.boolean := s1.below_fixed rfl
  refine Tabled.Keeps.bind (safe_builtinObject s1 ⟨below_nil, below_singleton.2 hunknown,
    below_none, hboolean, below_some.2 hany⟩) fun t2 array s2 r2 harray => ?_
  refine (safe_freshScope s2).bind fun t3 scope s3 r3 _ => ?_
  refine (safe_param s3 ⟨below_none, below_none⟩).bind fun t4 param s4 r4 hparam => ?_
  refine (safe_promiseOf s4 hparam).bind fun t5 promised s5 r5 hpromised => ?_
  have hparam := r5 hparam
  refine Tabled.Keeps.bind (safe_builtinObject s5 ⟨below_singleton.2 hparam,
    below_singleton.2 hparam, below_none, hpromised, below_none⟩)
    fun t6 promise s6 r6 hpromise => ?_
  have hvoid : t6.Has TypeId.void := s6.below_fixed rfl
  refine Tabled.Keeps.bind (safe_builtinObject s6 ⟨below_nil, below_nil,
    below_some.2 s6.below_any, hvoid, below_none⟩) fun t7 console s7 r7 hconsole => .pure s7 ?_
  have harray := (r3.trans (r4.trans (r5.trans (r6.trans r7)))).below harray
  exact below_cons.2 ⟨⟨trivial, harray⟩, below_cons.2 ⟨⟨trivial, r7 hpromise⟩,
    below_singleton.2 ⟨trivial, hconsole⟩⟩⟩

theorem below_noTypes {n : Nat} {α : Type} [Bounded α] : Below n ({} : Std.TreeMap Nat α) := by
  intro k
  rw [Std.TreeMap.getElem?_emptyc]
  exact below_none

/-- A unit starts in a new scope, where nothing is known of variables. -/
theorem keeps_start (s : t.Sound) {settings : Settings} {values : List (String × TypeId)}
    (h : t.Has values) : Keeps Runs t (start settings values) fun t' st =>
      t'.Has st ∧ st.scopes = [{}] ∧ st.env = {} ∧ st.breaks = [] := by
  refine (safe_builtinValues s).bind fun t1 builtins s1 r1 hbuiltins => .pure s1 ?_
  have hglobals : t1.Has (values.reverse ++ builtins) :=
    below_append.2 ⟨(r1 h).subset fun _ => List.mem_reverse.1, hbuiltins⟩
  refine ⟨?_, rfl, rfl, rfl⟩
  exact {
    globals := hglobals
    scopes := below_singleton.2 ⟨below_nil, below_nil⟩
    typeScopes := below_nil
    env := below_nil (α := String × TypeId)
    flow := below_nil (α := FlowNode)
    exprTypes := below_noTypes
    callPredicates := below_noTypes
    functions := below_nil
    breaks := below_nil
    thisType := below_none }

end Checking

end GradualTyping
