/-
# Calls that take a row

A type parameter beside an object in the type of a parameter takes the rest of an argument: the
fields that the object does not name (`Inference.row`).  The call is run step by step.  The walk
finds nothing in the object, in which the type parameter does not occur, and the row for the
parameter (`Inference.step_row`); an object is its own solution (`Inference.solve_object`).  Under
this solution the intersection is made again of the object and the row, which are merged to the
argument (`RowCall.substitute_row`).
-/

import GradualTyping.Proofs.Narrowing.Confinement
import GradualTyping.Proofs.Narrowing.Joins
import GradualTyping.Proofs.Occurrences
import GradualTyping.Proofs.Termination

namespace GradualTyping

open TypeTable List Reduction Operations Substitution

namespace TypeTable

variable {t t' : TypeTable} {p f r a id : TypeId} {F A : ObjectShape} {q : TypeParam}

/-- The free parameters of a type are added to those found before, and occur in it. -/
theorem freeParamsWithin_spec (fuel : Nat) (bound out : List TypeId) (id : TypeId) :
    out ⊆ t.freeParamsWithin fuel bound out id ∧
      ∀ r ∈ t.freeParamsWithin fuel bound out id, r ∈ out ∨ t.Occurs r id := by
  induction fuel generalizing bound out id with
  | zero => exact ⟨List.Subset.refl _, fun _ => .inl⟩
  | succ fuel ih =>
    have start : out ⊆ out ∧ ∀ r ∈ out, r ∈ out ∨ t.Occurs r id :=
      ⟨List.Subset.refl _, fun _ => .inl⟩
    have more {found : List TypeId} (bound : List TypeId) {m : TypeId}
        (hm : m ∈ (t.resolve id).parts) (h : out ⊆ found ∧ ∀ r ∈ found, r ∈ out ∨ t.Occurs r id) :
        out ⊆ t.freeParamsWithin fuel bound found m ∧
          ∀ r ∈ t.freeParamsWithin fuel bound found m, r ∈ out ∨ t.Occurs r id :=
      ⟨List.Subset.trans h.1 (ih bound found m).1, fun r hr =>
        ((ih bound found m).2 r hr).elim (h.2 r) fun h => .inr (.part hm h)⟩
    have all (bound : List TypeId) := List.foldlRecOn (motive := fun found =>
      out ⊆ found ∧ ∀ r ∈ found, r ∈ out ∨ t.Occurs r id) (t.resolve id).parts
      (t.freeParamsWithin fuel bound) start fun _ h m hm => more bound hm h
    unfold freeParamsWithin
    split
    · unfold addOnce
      split
      · exact start
      split
      · exact start
      · exact ⟨subset_append_left .., fun r hr => (mem_append.1 hr).imp_right fun hr => by
          rw [mem_singleton.1 hr]
          exact .here⟩
    · next m hm => exact more _ (by simp [hm, Ty.parts]) (more _ (by simp [hm, Ty.parts]) start)
    · next f hf => exact hf ▸ all _
    · exact all bound

/-- An object type stands against an intersection of a type parameter and an object in which the
parameter does not occur. -/
structure RowCall (t : TypeTable) (p f r a : TypeId) (F A : ObjectShape) (q : TypeParam) : Prop
    where
  whole : t.get? p = some (.intersection (sortIds [r, f]))
  object : t.get? f = some (.object F)
  param : t.get? r = some (.param q)
  arg : t.get? a = some (.object A)
  absent : ¬ t.Occurs r f

namespace RowCall

section

variable (h : t.RowCall p f r a F A q)
include h

theorem grows (s : t.Sound) (g : t.Grows t') : t'.RowCall p f r a F A q :=
  ⟨g.get? h.whole, g.get? h.object, g.get? h.param, g.get? h.arg, fun o =>
    h.absent ((g.occurs_iff s (below_of_get? h.object)).1 o)⟩

theorem ne : r ≠ f := by
  rintro rfl
  cases h.object.symm.trans h.param

theorem ne_arg : p ≠ a := by
  rintro rfl
  cases h.whole.symm.trans h.arg

/-- The parameter under inference is met in the intersection, and not in the object. -/
theorem mentions {i : Inference} {x : InferenceVar}
    (hi : i.vars = [x]) (hx : x.param = r) (room : 0 < t.limits.maxDepth) :
    i.mentions t p = true ∧ i.mentions t f = false := by
  have target (m : TypeId) : i.isTarget m = (r == m) := by simp [Inference.isTarget, hi, hx]
  unfold Inference.mentions
  rw [resolve_of_get? h.whole, resolve_of_get? h.object, Bool.or_false, Bool.or_false]
  refine ⟨any_eq_true.2 ⟨r, ?_, by simp [target]⟩, any_eq_false.2 fun m hm ht => ?_⟩
  · obtain ⟨fuel, hfuel⟩ := Nat.exists_eq_add_one.2 room
    have hr : r ∈ sortIds [r, f] := mem_sortIds.2 (.head _)
    obtain ⟨before, behind, split⟩ := append_of_mem hr
    rw [freeParams, hfuel, freeParamsWithin, resolve_of_get? h.whole, split]
    show r ∈ (before ++ r :: behind).foldl _ _
    rw [foldl_append, foldl_cons]
    refine List.foldlRecOn (motive := (r ∈ ·)) _ _ ?_ fun _ h _ _ => (freeParamsWithin_spec ..).1 h
    rw [freeParamsWithin, resolve_of_get? h.param]
    simp [addOnce]
    split <;> simp [*]
  · obtain rfl : r = m := by simpa [target] using ht
    exact h.absent (((freeParamsWithin_spec ..).2 r hm).resolve_left not_mem_nil)

end

end RowCall

end TypeTable

section State

variable {σ α β : Type} {st st' : σ} {t t' : TypeTable} {x : α}

/-- What follows an operation runs on the state and the table it leaves, with its answer. -/
theorem run_bind_of_eq {c : StateT σ TableM α} {f : α → StateT σ TableM β}
    (h : c.run st t = ((x, st'), t')) : (c >>= f).run st t = (f x).run st' t' := by
  show (f (c.run st t).1.1).run (c.run st t).1.2 (c.run st t).2 = _
  rw [h]

theorem run_liftM {c : TableM α} (h : c t = (x, t')) :
    (liftM c : StateT σ TableM α).run st t = ((x, st), t') := by
  show (((c t).1, st), (c t).2) = _
  rw [h]

end State

namespace Inference

variable {t : TypeTable} {i : Inference} {param arg : TypeId} {n : Nat}
variable {o : ObjectShape}

theorem visit_run (deeper : Operations) (c : Bool) (i : Inference) (t : TypeTable) :
    (visit deeper param arg c).run i t =
      (if (t.resolve param).isParam then modifyThe Inference (·.addCandidate param arg c)
      else if i.mentions t param then do
        let arg ← (deeper.evaluate arg : TableM TypeId)
        collect deeper param arg c (t.resolve param) (← (resolve arg : TableM Ty))
      else pure () : InferM Unit).run i t := by
  show (if (t.resolve param).isParam = true then _ else _ : InferM Unit).run i t = _
  split <;> rfl

/-- A pair that is looked at for the first time is visited one level deeper. -/
theorem step_of_new {deeper : Operations} {c : Bool}
    (new : ¬(param = arg ∨ (param, arg, c) ∈ i.visited))
    (untripped : ((step deeper param arg c).run i t).2.Untripped) :
    let out := (visit deeper param arg c).run { i with visited := (param, arg, c) :: i.visited }
      t.deeper
    t.depth < t.limits.maxDepth ∧
      (step deeper param arg c).run i t = (out.1, out.2.shallower) := by
  have entered : (step deeper param arg c).run i t =
      (guarded () (visit deeper param arg c)).run
        { i with visited := (param, arg, c) :: i.visited } t := by
    show (if param = arg ∨ (param, arg, c) ∈ i.visited then pure () else
      set { i with visited := (param, arg, c) :: i.visited } >>= fun _ =>
        guarded () (visit deeper param arg c) : InferM Unit).run i t = _
    rw [if_neg new]
    rfl
  rw [entered, guarded_run] at untripped ⊢
  exact guarded_of_untripped _ _ untripped

/-- Along a type without parameters under inference nothing is found. -/
theorem step_unmentioned {deeper : Operations} {c : Bool} (s : t.Sound) (hp : t.Has param)
    (plain : (t.resolve param).isParam = false) (unmentioned : i.mentions t param = false)
    (untripped : ((step deeper param arg c).run i t).2.Untripped) :
    ∃ visited, (step deeper param arg c).run i t = (((), { i with visited := visited }), t) := by
  by_cases seen : param = arg ∨ (param, arg, c) ∈ i.visited
  · exact ⟨i.visited, congrFun (congrArg (·.run i)
      (if_pos seen : ite _ (pure ()) _ = (_ : InferM Unit))) t⟩
  · refine ⟨(param, arg, c) :: i.visited, (step_of_new seen untripped).2.trans ?_⟩
    have g : t.Grows t.deeper := ⟨prefix_refl _, rfl⟩
    rw [visit_run, if_neg (by exact Bool.eq_false_iff.1 plain),
      if_neg (by exact Bool.eq_false_iff.1 ((mentions_of_grows s g hp).trans unmentioned))]
    rfl

theorem evaluate_object (s : t.Sound) (h : t.get? arg = some (.object o)) :
    (withLevels n).evaluate arg t = (arg, t) :=
  idle_withLevels n s
    (needsEvaluation_of_isHead (by rw [resolve_of_get? h]; rfl))

theorem keyNames_object (s : t.Sound) (h : t.get? param = some (.object o)) :
    Reduction.keyNames (.withLevels n) param t = (o.properties.map (·.name), t) := by
  have asked (fuel : Nat) : (Reduction.naming.within (.withLevels n) (fuel + 1) param).run t =
      (some (o.properties.map (·.name)), t) := by
    refine Reduction.Descent.within_succ_iff.2 ?_
    rw [evaluate_object s h]
    dsimp only
    rw [resolve_of_get? h]
    exact ⟨[], t, rfl, rfl⟩
  have deep : Reduction.Descent.nestingLimit = 0xffffffffff + 1 := rfl
  show ((Reduction.naming.within (.withLevels n) Reduction.Descent.nestingLimit param).run >>=
    fun found => pure (found.getD [])) t = _
  rw [deep, bind_of_eq (asked _)]
  rfl

/-- The row of an argument: its fields that the object beside the parameter does not name. -/
def row (o f : ObjectShape) : ObjectShape :=
  ⟨o.properties.filter fun p => !(f.properties.map (·.name)).contains p.name, o.index⟩

variable {p f r a : TypeId} {F A : ObjectShape} {q : TypeParam} {x : InferenceVar}

theorem insert_deeper (t : TypeTable) (ty : Ty) :
    t.deeper.insert ty = ((t.insert ty).1, (t.insert ty).2.deeper) := by
  cases h : t.lookup? ty with
  | some id => rw [insert_of_lookup h, insert_of_lookup (t := t.deeper) h]
  | none =>
    rw [insert_of_new h, insert_of_new (t := t.deeper) h]
    rfl

theorem remainder_object (s : t.Sound) (h : t.get? arg = some (.object o)) :
    remainder (F.properties.map (·.name)) arg t = t.insert (.object (row o F)) := by
  have names : NamesIncrease (row o F).properties := (s.canonical h).filter _
  have node : resolve arg t = (.object o, t) := congrArg (·, t) (resolve_of_get? h)
  rw [remainder, bind_of_eq node]
  show objectOf (row o F).properties o.index t = _
  rw [objectOf, sortProperties_of_namesIncrease names]
  rfl

/-- **The row of an argument** is found for a parameter that stands beside an object. -/
theorem step_row (s : t.Sound) (h : t.RowCall p f r a F A q) (hx : x.param = r)
    (below : t.Has ({ vars := [x] } : Inference))
    (untripped : ((step (.withLevels n) p a false).run { vars := [x] } t).2.Untripped) :
    ∃ visited, (step (.withLevels n) p a false).run { vars := [x] } t =
      (((), { vars := [x.add (t.insert (.object (row A F))).1 false], visited := visited }),
        (t.insert (.object (row A F))).2) := by
  obtain ⟨room, stepped⟩ := step_of_new (by simp [h.ne_arg]) untripped
  rw [stepped] at untripped ⊢
  have h' : t.deeper.RowCall p f r a F A q := h.grows s ⟨prefix_refl _, rfl⟩
  generalize hi : ({ vars := [x], visited := [(p, a, false)] } : Inference) = i at *
  obtain ⟨mentioned, unmentioned⟩ := h'.mentions (i := i) (hi ▸ rfl) hx
    (show 0 < t.limits.maxDepth by omega)
  have apart : (sortIds [r, f]).partition i.isTarget = ([r], [f]) := by
    have := h.ne
    rw [partition_eq_filter_filter, ← hi]
    rcases sortIds_pair h.ne with h | h <;> simp [h, isTarget, hx, this]
  obtain ⟨⟨⟨⟨⟩, j⟩, t1⟩, walked⟩ : ∃ out,
      ((withLevels n).inferFrom f a false).run i t.deeper = out := ⟨_, rfl⟩
  obtain ⟨s1, r1, -⟩ := ((safe_withLevels n).inferFrom false s.deeper
    (below_of_get? h'.object) (below_of_get? h'.arg) i (hi ▸ below)).ends walked
  have h1 := h'.grows s.deeper r1.toGrows
  have found : (visit (.withLevels n) p a false).run i t.deeper =
      (((), j.addCandidate r (t1.insert (.object (row A F))).1 false),
        (t1.insert (.object (row A F))).2) := by
    rw [visit_run, resolve_of_get? h'.whole, if_neg (by exact Bool.false_ne_true),
      if_pos mentioned, run_bind_of_eq (run_liftM (evaluate_object s.deeper h'.arg)),
      run_bind_of_eq (run_liftM (c := resolve a) rfl)]
    show (intoRow (.withLevels n) (sortIds [r, f]) a false).run _ _ = _
    rw [intoRow, run_bind_of_eq (c := splitNaked _) (congrArg (fun p => ((p, _), t.deeper)) apart)]
    simp only [foldlM_cons, foldlM_nil, bind_assoc, pure_bind, nil_append]
    rw [run_bind_of_eq walked, run_bind_of_eq (run_liftM (keyNames_object s1 h1.object)),
      if_neg (by simp), run_bind_of_eq (run_liftM (remainder_object s1 h1.arg))]
    rfl
  rw [found] at untripped ⊢
  have untripped : t1.Untripped := (congrArg depthError (insert_frame ..)).symm.trans untripped
  -- The guard has not tripped in the object either, where there is nothing to be found.
  obtain ⟨below, deeper⟩ : ∃ below, (withLevels n).inferFrom f a false =
      step below f a false := by cases n <;> exact ⟨_, rfl⟩
  rw [deeper] at walked
  obtain ⟨visited, nothing⟩ := step_unmentioned s.deeper (below_of_get? h'.object)
    (by rw [resolve_of_get? h'.object]; rfl) unmentioned (by rwa [walked])
  cases walked.symm.trans nothing
  refine ⟨visited, ?_⟩
  rw [insert_deeper, addCandidate, ← hi, updateVar, if_pos hx]
  rfl

/-- The solution for one parameter without a bound that has found an object. -/
theorem solve_object {ops : Operations} (s : t.Sound) {rest : TypeId}
    (hrest : t.get? rest = some (.object o)) (hx : x.bound = none) (hfound : x.covariant = [rest])
    {visited : List (TypeId × TypeId × Bool)} :
    solve ops { vars := [x], visited := visited } t =
      ({ substitution := (({} : Substitution).insert x.param rest).insert x.var rest }, t) := by
  have widened : widenLiterals rest t = (rest, t) := by
    unfold widenLiterals
    rw [get_bind, resolve_of_get? hrest]
    show (t.widenMember rest, t) = _
    rw [TypeTable.widenMember, resolve_of_get? hrest]
  have joined : joinCandidates ops x t = (some rest, t) := by
    unfold joinCandidates
    rw [hfound, hx, if_pos (by rfl),
      bind_of_eq ((s.isUnion_self (below_of_get? hrest)).unionOf_eq s)]
    show (fun p : TypeId × TypeTable => (some p.1, p.2)) (widenLiterals rest t) = _
    rw [widened]
  have solved : solveVar ops {} x t =
      ({ params := ({} : Substitution).insert x.param rest, vars := [(x.var, rest)] }, t) := by
    unfold solveVar
    rw [bind_of_eq joined, hx]
    rfl
  show ((solveVar ops {} x >>= pure) >>= fun solved => pure _) t = _
  rw [bind_pure, bind_of_eq solved]
  rfl

/-- **A call is solved by the row of its argument**, under the parameter and a new variable. -/
theorem inferCall_row (s : t.Sound) (levels : t.limits.maxDepth - t.depth = n)
    (h : t.RowCall p f r a F A q) (free : q.bound = none) {name : String} :
    let call := inferCall (.withLevels n)
      { typeParams := [r], params := [{ name := name, type := p }], result := p } [a] t
    call.2.Untripped → ∃ rest var t',
      call = ({ substitution := (({} : Substitution).insert r rest).insert var rest }, t') ∧
      t'.Sound ∧ t.Grows t' ∧ t'.get? rest = some (.object (row A F)) ∧ ¬ t.Has var := by
  intro call untripped
  obtain ⟨⟨var, t1⟩, fresh⟩ : ∃ o, freshVariable t = o := ⟨_, rfl⟩
  obtain ⟨s1, r1, -, new⟩ := (keeps_freshVariable s).ends fresh
  have h1 := h.grows s r1.toGrows
  have hp := below_of_get? h1.whole
  have ha := below_of_get? h1.arg
  generalize hx : InferenceVar.mk r var q.name q.bound q.fallback [] [] = x
  have start : Inference.start [r] t = ({ vars := [x] }, t1) := by
    have node : resolve r t = (.param q, t) := congrArg (·, t) (resolve_of_get? h.param)
    unfold Inference.start
    simp only [mapM_cons, mapM_nil, bind_assoc, pure_bind]
    rw [bind_of_eq node, bind_of_eq fresh, ← hx]
    rfl
  obtain ⟨-, -, hstart⟩ := (safe_start s (below_singleton.2 (below_of_get? h.param))).ends start
  obtain ⟨⟨⟨⟨⟩, j⟩, t2⟩, walked⟩ : ∃ out,
      ((withLevels n).inferFrom p a false).run { vars := [x] } t1 = out := ⟨_, rfl⟩
  obtain ⟨s2, r2, hj⟩ :=
    ((safe_withLevels n).inferFrom false s1 hp ha _ hstart).ends walked
  have run : call = ((captureRow (.withLevels n) p a).run j >>= fun o =>
      solve (.withLevels n) o.2) t2 := by
    subst call
    rw [inferCall, bind_of_eq start]
    dsimp only
    rw [show List.filterMap _ _ = [(p, a)] from rfl]
    have inferred : (infer (.withLevels n) p a >>= pure).run { vars := [x] } t1 =
        (captureRow (.withLevels n) p a).run j t2 := by
      rw [bind_pure, infer, run_bind_of_eq walked]
    exact bind_of_eq inferred
  have follows : Safe t2 ((captureRow (.withLevels n) p a).run j >>= fun o =>
      solve (.withLevels n) o.2) :=
    ((Repeating.safe (repeats_captureRow (safe_withLevels n).repeats s2 (r2 hp)
      (r2 ha))).run hj.2).bind fun _ _ s3 _ hi => safe_solve (safe_withLevels n) s3 hi.2
  have passed : t2.Untripped := follows.related.untripped (run ▸ untripped)
  cases n with
  | zero =>
    have walked : (step .inert p a false).run { vars := [x] } t1 = _ := walked
    have stepped : ((step .inert p a false).run { vars := [x] } t1).2.Untripped := by
      rw [walked]
      exact passed
    have room := (step_of_new (by simp [h.ne_arg]) stepped).1
    rw [r1.depth, r1.limits] at room
    omega
  | succ n =>
    have walked : (step (.withLevels n) p a false).run { vars := [x] } t1 = _ := walked
    obtain ⟨visited, out⟩ := step_row s1 h1 (hx ▸ rfl) hstart (by rw [walked]; exact passed)
    obtain ⟨⟨rest, t3⟩, made⟩ : ∃ o, t1.insert (.object (row A F)) = o := ⟨_, rfl⟩
    rw [made] at out
    cases walked.symm.trans out
    have hA : t1.Has A := s1.below_node (resolve_of_get? h1.arg)
    have stored : Leaves Runs t1 (intern (.object (row A F))) _ :=
      keeps_intern s1 ⟨hA.1.filter _, hA.2⟩ ((s1.canonical h1.arg).filter _) rfl
    have found := (stored.ends made).2.2
    have h2 := h1.grows s1 r2.toGrows
    refine ⟨rest, var, t3, run.trans ?_, s2, r1.toGrows.trans r2, found, new⟩
    have plain : needsEvaluation t3 p = false := by
      rw [needsEvaluation, resolve_of_get? h2.whole]
      refine any_eq_false.2 fun m hm => ?_
      rcases mem_pair.1 (mem_sortIds.1 hm) with rfl | rfl
      · rw [isReducible, resolve_of_get? h2.param]
        exact Bool.false_ne_true
      · rw [isReducible, resolve_of_get? h2.object]
        exact Bool.false_ne_true
    have captured {j : Inference} :
        (captureRow (.withLevels (n + 1)) p a).run j t3 = (((), j), t3) := by
      rw [captureRow, run_bind_of_eq (run_liftM (idle_withLevels _ s2 plain)),
        run_bind_of_eq (run_liftM (evaluate_object s2 h2.arg)),
        run_bind_of_eq (run_liftM (c := get) rfl)]
      simp only [resolve_of_get? h2.whole]
      rfl
    refine (bind_of_eq captured).trans ?_
    subst hx
    exact solve_object s2 found free rfl

end Inference

namespace TypeTable

open Inference Substitution

variable {t : TypeTable} {p f r a rest : TypeId} {F A : ObjectShape} {q : TypeParam}
  {σ : Substitution}

theorem below_of_occurs {key id : TypeId} (s : t.Sound) (h : t.Occurs key id)
    (hid : t.Has id) : t.Has key := by
  induction h with
  | here => exact hid
  | part hm _ ih => exact ih (s.below_part hm)

namespace RowCall

section

variable (h : t.RowCall p f r a F A q) (s : t.Sound)
include h s

/-- What the row was taken of is made again of the row and the object beside it. -/
theorem intersectionOf_row
    (hrest : t.get? rest = some (.object (row A F))) (fields : F.properties ⊆ A.properties)
    (closed : F.index = none) {ms : List TypeId} (hms : ∀ x, x ∈ ms ↔ x = f ∨ x = rest) :
    (intersectionOf ms t).1 = a := by
  have made : Leaves Runs t (intersectionOf ms) _ := keeps_intersectionOf_step s fun x hx =>
    ((hms x).1 hx).elim (fun e => e ▸ below_of_get? h.object) fun e => e ▸ below_of_get? hrest
  have apart : ∀ p ∈ F.properties, ∀ q ∈ (row A F).properties, p.name ≠ q.name := by
    intro p hp q hq same
    have unnamed := (mem_filter.1 hq).2
    rw [← same] at unnamed
    simp at unnamed
    exact unnamed p hp rfl
  obtain ⟨more, hmore, mem, index⟩ := made.post.2.objects s hms made.sound made.related
    (resolve_of_get? h.object) (resolve_of_get? hrest) apart
  have hA : NamesIncrease A.properties := s.canonical h.arg
  have properties : more.properties = A.properties :=
    NamesIncrease.ext (made.sound.canonical_node hmore) hA fun p => by
      rw [mem]
      refine ⟨fun h => h.elim (@fields p) fun h => (mem_filter.1 h).1, fun hp => ?_⟩
      by_cases named : p.name ∈ F.properties.map (·.name)
      · obtain ⟨q, hq, same⟩ := mem_map.1 named
        exact .inl (hA.unique hp (fields hq) same ▸ hq)
      · exact .inr (mem_filter.2 ⟨hp, by simpa using named⟩)
  obtain rfl : more = A := by
    cases more
    cases A
    simp_all [row]
  exact made.sound.get?_inj (get?_of_resolve hmore nofun) (made.related.toGrows.get? h.arg)

/-- **The intersection becomes what the row was taken of**, if the parameter is replaced by the
row and no key occurs in the object beside it. -/
theorem substitute_row
    (hrest : t.get? rest = some (.object (row A F))) (fields : F.properties ⊆ A.properties)
    (closed : F.index = none) (key : σ.get? r = some rest) (whole : σ.get? p = none)
    (avoids : t.Avoids σ f) (untripped : (substitute σ p t).2.Untripped) :
    (substitute σ p t).1 = a := by
  have hp := resolve_of_get? h.whole
  have hr := resolve_of_get? h.param
  have members {m : TypeId} : m ∈ (t.resolve p).parts ↔ m = r ∨ m = f := by
    rw [hp]
    exact mem_sortIds.trans mem_pair
  -- what becomes of the intersection, of its members and of what occurs in the object
  let out (k : TypeId) : TypeId := if k = p then a else (σ.get? k).getD k
  have out_p : out p = a := if_pos rfl
  have out_r : out r = rest := by
    have : r ≠ p := by
      rintro rfl
      cases h.whole.symm.trans h.param
    simp [out, this, key]
  have out_avoids {k : TypeId} (hk : t.Avoids σ k) : out k = k := by
    have : k ≠ p := by
      rintro rfl
      cases (avoids_iff.1 ((avoids_iff.1 hk).2 r (members.2 (.inl rfl)))).1.symm.trans key
    simp [out, this, (avoids_iff.1 hk).1]
  have replaces := replaces_untripped (σ := σ) (E := fun _ k v => out k = v)
    (P := fun id => t.Has id ∧ (id = p ∨ id = r ∨ t.Avoids σ id)) s (·.1)
    (by
      rintro id m ⟨-, rfl | rfl | hid⟩ hm
      · exact ⟨s.below_part hm, .inr ((members.1 hm).imp_right fun e : m = f => e ▸ avoids)⟩
      · exact absurd (hr ▸ hm) not_mem_nil
      · exact ⟨s.below_part hm, .inr (.inr ((avoids_iff.1 hid).2 m hm))⟩)
    (by
      rintro t1 id c ops ⟨-, rfl | rfl | hid⟩ s1 - hc idle
      · cases hp.symm.trans hc
      · cases hr.symm.trans hc
      · refine distributes?_of_param idle s1 fun v hv => ?_
        have absent := (avoids_iff.1 ((avoids_iff.1 hid).2 c.check (hc ▸ .head _))).1
        cases absent.symm.trans hv)
    (fun _ _ _ e => e)
    (by
      rintro id v ⟨-, rfl | rfl | hid⟩ hv
      · cases whole.symm.trans hv
      · obtain rfl := Option.some.inj (key.symm.trans hv)
        exact ⟨below_of_get? hrest, out_r⟩
      · cases (avoids_iff.1 hid).1.symm.trans hv)
    (by
      rintro id ⟨-, rfl | rfl | hid⟩ absent hnil
      · exact absurd (hnil ▸ members.2 (.inl rfl)) not_mem_nil
      · cases absent.symm.trans key
      · exact out_avoids hid)
    (by
      intro t1 id us ⟨below, hid⟩ s1 g hne hty hus
      rw [← forall₂_map_left_iff, forall₂_eq_eq_eq] at hus
      subst hus
      rcases hid with rfl | rfl | hid
      · rw [hp, out_p]
        refine ((h.grows s g).intersectionOf_row s1 (g.get? hrest) fields closed fun x => ?_).symm
        show x ∈ (sortIds [r, f]).map out ↔ _
        simp [mem_sortIds, out_r, out_avoids avoids, eq_comm, or_comm]
      · exact absurd (congrArg Ty.parts hr) hne
      · have same := map_congr_left fun m hm => out_avoids ((avoids_iff.1 hid).2 m hm)
        rw [same, map_id', Ty.withParts_parts, ← g.resolve below,
          s1.nodeOf_resolve (g below)]
        exact out_avoids hid)
  have nonempty : ¬ σ.isEmpty := fun h => by
    rw [Substitution.get?, isEmpty_iff.1 h] at key
    cases key
  have done := replaces.substitute (t.limits.maxDepth - t.depth) s (.refl t) (by omega)
    ⟨below_of_get? h.whole, .inl rfl⟩ nonempty
  exact (done.post.2.2 untripped).symm.trans out_p

/-- **A row restores the argument**: the intersection becomes it under the solution of the call. -/
theorem restored
    (fields : F.properties ⊆ A.properties) (closed : F.index = none) (unbounded : q.bound = none)
    {name : String} :
    let call := GradualTyping.inferCall
      { typeParams := [r], params := [{ name := name, type := p }], result := p } [a] t
    let out := substitute call.1.substitution p call.2
    out.2.Untripped → call.1.failures = [] ∧ out.1 = a := by
  intro call out untripped
  have hp := below_of_get? h.whole
  have hr : t.Has [r] := below_singleton.2 (below_of_get? h.param)
  have ha : t.Has [a] := below_singleton.2 (below_of_get? h.arg)
  obtain ⟨s', r', below⟩ : Leaves Runs t (GradualTyping.inferCall _ [a]) _ := safe_inferCall s
    (f := { typeParams := [r], params := [{ name := name, type := p }], result := p })
    ⟨hr, below_singleton.2 hp, below_none, hp, below_none⟩ ha
  have replaced : Leaves Runs call.2 (substitute call.1.substitution p) _ :=
    safe_substitute s' below.1 (r' hp)
  obtain ⟨rest, var, t', called, s', g, hrest, new⟩ :=
    inferCall_row s rfl h unbounded (replaced.related.untripped untripped)
  have called : call = _ := called
  subst out
  clear_value call
  subst called
  have get (id : TypeId) : ((({} : Substitution).insert r rest).insert var rest).get? id =
      if id = r ∨ id = var then some rest else none := by
    simp only [Substitution.get?, Substitution.insert, Substitution.setEntry]
    grind
  refine ⟨rfl, (h.grows s g).substitute_row s' hrest fields closed ?_ ?_ ?_ untripped⟩
  · exact (get r).trans (if_pos (.inl rfl))
  · refine (get _).trans (if_neg ?_)
    rintro (rfl | rfl)
    · cases h.whole.symm.trans h.param
    · exact new hp
  · intro key hkey occurs
    have occurs := (g.occurs_iff s (below_of_get? h.object)).1 occurs
    rw [Substitution.contains, get] at hkey
    split at hkey
    · next e =>
      rcases e with rfl | rfl
      · exact h.absent occurs
      · exact new (below_of_occurs s occurs (below_of_get? h.object))
    · cases hkey

end

end RowCall

/-- **Rows preserve the argument of a call.**  An object type `f` has some of the fields of `a` and
no index signature, and `r` is a parameter without a bound that does not occur in `a`.  Then a
function from `f & r` accepts `a`, and under the solution of the call `f & r` is `a`, unless the
guard trips. -/
theorem Reachable.row_restored (h : t.Reachable) (ha : t.get? a = some (.object A))
    (hf : t.get? f = some (.object F)) (hr : t.get? r = some (.param q))
    (fields : F.properties ⊆ A.properties) (closed : F.index = none)
    (unbounded : q.bound = none) (absent : ¬ t.Occurs r a) (name : String) :
    let whole := intersectionOf [f, r] t
    let call := inferCall
      { typeParams := [r], params := [{ name := name, type := whole.1 }], result := whole.1 } [a]
      whole.2
    let out := substitute call.1.substitution whole.1 call.2
    out.2.Untripped → call.1.failures = [] ∧ out.1 = a := by
  have members : t.Has [f, r] := below_pair.2 ⟨below_of_get? hf, below_of_get? hr⟩
  obtain ⟨s, g, -, meets⟩ : Leaves Runs t (intersectionOf [f, r]) _ :=
    keeps_intersectionOf_step h.sound members
  have beside := meets.beside (m := r) (k := f) h.sound (by simp [or_comm]) s g
    (by rw [resolve_of_get? hr]; rfl) (by rw [shape?, resolve_of_get? hr]) (resolve_of_get? hf)
  refine RowCall.restored ⟨get?_of_resolve beside (by simp), g.get? hf, g.get? hr, g.get? ha,
    fun occurs => ?_⟩ s fields closed unbounded
  cases (g.occurs_iff h.sound (below_of_get? hf)).1 occurs with
  | here => cases hf.symm.trans hr
  | part hm occurs =>
    refine absent (.part ?_ occurs)
    rw [resolve_of_get? hf, Ty.parts, closed, Option.toList_none, append_nil] at hm
    rw [resolve_of_get? ha]
    exact mem_append_left _ (map_subset _ fields hm)

/-- A string field beside the parameter, and an argument with an optional one more. -/
theorem row_restored_optional :
    let r := intern (.param { name := "R", scope := 0 }) (withLimits {})
    let fields : List Property :=
      [{ name := "a", type := .string }, { name := "b", type := .string, optional := true }]
    let f := objectOf (fields.take 1) none r.2
    let a := objectOf fields none f.2
    let whole := intersectionOf [f.1, r.1] a.2
    let call := inferCall
      { typeParams := [r.1], params := [{ name := "x", type := whole.1 }], result := whole.1 } [a.1]
      whole.2
    call.1.failures = [] ∧ (substitute call.1.substitution whole.1 call.2).1 = a.1 := by
  intro r fields f a
  have made : a.2.get? r.1 = some (.param { name := "R", scope := 0 }) ∧
      a.2.get? f.1 = some (.object ⟨fields.take 1, none⟩) ∧
      a.2.get? a.1 = some (.object ⟨fields, none⟩) := by
    subst a f r fields
    cbv
  obtain ⟨hr, hf, ha⟩ := made
  have reached : r.2.Reachable := (Reachable.start {}).step (.param _) ⟨below_none, below_none⟩
  have reached : f.2.Reachable := reached.step (.object _ none)
    ⟨below_singleton.2 (reached.sound.below_fixed rfl), below_none⟩
  have reached : a.2.Reachable := reached.step (.object _ none)
    ⟨below_pair.2 ⟨reached.sound.below_fixed rfl, reached.sound.below_fixed rfl⟩, below_none⟩
  have string := resolve_of_get? (reached.sound.get?_fixed (i := 3) rfl)
  refine reached.row_restored ha hf hr (take_subset 1 fields) rfl rfl (fun occurs => ?_)
    "x" ?_
  · clear_value a f r
    generalize a.1 = x, r.1 = y at *
    cases occurs with
    | here => cases ha.symm.trans hr
    | part hm occurs =>
      rw [resolve_of_get? ha] at hm
      obtain rfl := or_self_iff.1 (mem_pair.1 hm)
      cases occurs with
      | here => cases string.symm.trans (resolve_of_get? hr)
      | part hm => exact absurd (string ▸ hm) not_mem_nil
  · subst a f r fields
    cbv

end TypeTable

end GradualTyping
