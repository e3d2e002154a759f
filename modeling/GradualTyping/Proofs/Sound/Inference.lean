/-
# Inference is safe

The state of an inference holds types of the table throughout: a walk along a
parameter and an argument adds parts of the argument as candidates, and solving
joins them.

Two inferences of one call make different variables and are the same in everything
else: the candidates of a parameter are parts of the argument, and nothing looks at a
variable before the solution is put together.  The view of an inference leaves the
variables out, and every step of the walk keeps it.  So what a comparison asks an
inference for, the solutions of the parameters, is the same in both
(`repeats_solveAll`).
-/

import GradualTyping.Proofs.Sound.Evaluation

namespace GradualTyping

open TypeTable List Reduction Substitution

instance : Bounded InferenceFailure :=
  ⟨fun n f => Below n f.param ∧ Below n f.inferred ∧ Below n f.bound,
    fun h => .imp (Bounded.mono h) (.imp (Bounded.mono h) (Bounded.mono h))⟩

instance : Bounded Inference.Solving :=
  ⟨fun n s => Below n s.params ∧ Below n s.vars ∧ Below n s.failures,
    fun h => .imp (Bounded.mono h) (.imp (Bounded.mono h) (Bounded.mono h))⟩

instance : Bounded InferenceSolution :=
  ⟨fun n r => Below n r.substitution ∧ Below n r.failures ∧ Below n r.rows,
    fun h => .imp (Bounded.mono h) (.imp (Bounded.mono h) (Bounded.mono h))⟩

/-! ### Parameters that occur in a type -/

namespace TypeTable

variable {n : Nat} {t t' : TypeTable}

theorem AgreeBelow.freeParamsWithin (h : AgreeBelow n t t') (fuel : Nat) (bound out : List TypeId)
    {id : TypeId} (hid : Below n id) :
    t'.freeParamsWithin fuel bound out id = t.freeParamsWithin fuel bound out id := by
  induction fuel generalizing bound out id with
  | zero => rfl
  | succ fuel ih =>
    have hparts : Below n (t.resolve id).parts := fun m hm =>
      below_iff_ids.1 (h.closed hid) m (parts_subset_ids _ hm)
    have fold : ∀ bound (l : List TypeId) out, Below n l →
        l.foldl (t'.freeParamsWithin fuel bound) out = l.foldl (t.freeParamsWithin fuel bound) out := by
      intro bound l
      induction l with
      | nil => exact fun _ _ => rfl
      | cons m l ihl =>
        intro out hl
        obtain ⟨hm, hl⟩ := below_cons.1 hl
        rw [foldl_cons, foldl_cons, ih bound out hm, ihl _ hl]
    unfold TypeTable.freeParamsWithin
    rw [h.resolve hid]
    split
    · rfl
    · next m hm =>
      have hb : Below n (Ty.mapped m) := hm ▸ h.closed hid
      rw [ih bound out hb.2.1, ih _ _ hb.2.2]
    · next f hf => exact fold _ _ _ (hf ▸ hparts)
    · exact fold _ _ _ hparts

theorem AgreeBelow.freeParams (h : AgreeBelow n t t') {id : TypeId} (hid : Below n id) :
    t'.freeParams id = t.freeParams id := by
  unfold TypeTable.freeParams
  rw [h.limits]
  exact h.freeParamsWithin _ _ _ hid

end TypeTable

namespace Inference

variable {q : Prop} {ops : Operations} {t : TypeTable} {n : Nat} {i i' : Inference}
variable {v : InferenceVar} {candidate param arg : TypeId} {contravariant : Bool}

/-! ### Candidates -/

theorem below_add
    (hv : Below n v) (hc : Below n candidate) : Below n (v.add candidate contravariant) := by
  unfold InferenceVar.add
  split
  · exact ⟨hv.1, hv.2.1, hv.2.2.1, below_addOnce hv.2.2.2 hc⟩
  · exact ⟨hv.1, hv.2.1, below_addOnce hv.2.2.1 hc, hv.2.2.2⟩

theorem below_updateVar {f : InferenceVar → InferenceVar}
    {vs : List InferenceVar} (hf : ∀ v, Below n v → Below n (f v)) (h : Below n vs) :
    Below n (updateVar param f vs) := by
  fun_induction updateVar param f vs with
  | case1 => exact h
  | case2 v vs _ => exact below_cons.2 ⟨hf _ (below_cons.1 h).1, (below_cons.1 h).2⟩
  | case3 v vs _ ih => exact below_cons.2 ⟨(below_cons.1 h).1, ih (below_cons.1 h).2⟩

theorem below_addCandidate (hi : Below n i) (hc : Below n candidate) :
    Below n (i.addCandidate param candidate contravariant) :=
  ⟨below_updateVar (fun _ hv => below_add hv hc) hi.1, hi.2⟩

/-! ### What two runs have in common -/

theorem isTarget_of_view (h : view i' = view i) : i'.isTarget = i.isTarget := by
  have params : ∀ i : Inference, i.isTarget = i.bare.isTarget := by
    intro i
    funext id
    show i.vars.any _ = (i.vars.map _).any _
    rw [any_map]
    rfl
  rw [params i', params i]
  exact congrArg isTarget h

theorem visited_of_view (h : view i' = view i) : i'.visited = i.visited := by
  have bare : i'.bare.visited = i.bare.visited := congrArg Inference.visited h
  exact bare

theorem mentions_of_view (h : view i' = view i) (id : TypeId) :
    i'.mentions t id = i.mentions t id := by
  unfold mentions
  rw [isTarget_of_view h]

theorem mentions_of_grows {t' : TypeTable} (s : t.Sound) (g : t.Grows t') {id : TypeId}
    (hid : t.Has id) : i.mentions t' id = i.mentions t id := by
  unfold mentions
  rw [(s.agreeBelow g).freeParams hid, g.resolve hid]

theorem bare_addCandidate (i : Inference) :
    (i.addCandidate param candidate contravariant).bare =
      i.bare.addCandidate param candidate contravariant := by
  have vars : ∀ vs : List InferenceVar,
      (updateVar param (·.add candidate contravariant) vs).map .bare =
        updateVar param (·.add candidate contravariant) (vs.map .bare) := by
    intro vs
    induction vs with
    | nil => rfl
    | cons v vs ih =>
      rw [updateVar, map_cons, updateVar]
      by_cases hv : v.param = param
      · rw [if_pos hv, if_pos (show v.bare.param = param from hv), map_cons]
        cases contravariant <;> rfl
      · rw [if_neg hv, if_neg (show ¬ v.bare.param = param from hv), map_cons, ih]
  show ({ vars := _, rows := _, visited := _ } : Inference) = { vars := _, rows := _, visited := _ }
  rw [Inference.mk.injEq]
  exact ⟨vars i.vars, rfl, rfl⟩

/-- A change of an inference that commutes with leaving out the variables. -/
theorem view_of_bare {g : Inference → Inference} (hg : ∀ i, (g i).bare = g i.bare)
    (h : view i' = view i) : view (g i') = view (g i) := by
  show (g i').bare = (g i).bare
  rw [hg, hg, show i'.bare = i.bare from h]

/-! ### The walk -/

theorem repeats_addCandidate (s : t.Sound) (hc : t.Has candidate) :
    Repeats q t (modifyThe Inference (·.addCandidate param candidate contravariant) : InferM PUnit) :=
  Repeating.modifyThe s (fun _ hi => below_addCandidate hi hc) fun _ _ hv =>
    view_of_bare (fun i => bare_addCandidate i) hv

theorem repeats_addAll (s : t.Sound) {naked : List TypeId} (hc : t.Has candidate) :
    Repeats q t (addAll naked candidate contravariant) := by
  have bare : ∀ i : Inference,
      (naked.foldl (fun i p => i.addCandidate p candidate contravariant) i).bare =
        naked.foldl (fun i p => i.addCandidate p candidate contravariant) i.bare := by
    induction naked with
    | nil => exact fun _ => rfl
    | cons p naked ih => intro i; rw [foldl_cons, foldl_cons, ih, bare_addCandidate]
  exact Repeating.modifyThe s (fun _ hi => Bounded.Below.foldl hi fun _ hi _ _ =>
    below_addCandidate hi hc) fun _ _ hv => view_of_bare bare hv

theorem repeats_splitNaked (s : t.Sound) {members : List TypeId} (h : t.Has members) :
    Repeats q t (splitNaked members) := by
  refine Repeating.getThe (fun i i' hv => by rw [isTarget_of_view hv]) fun i _ => ?_
  refine .pure s ?_
  rw [partition_eq_filter_filter]
  exact ⟨h.filter _, h.filter _⟩

/-- Walking along pairs of parts, one after the other. -/
theorem repeats_inferPairs (hops : ops.Repeats q) (s : t.Sound) {α : Type} {xs : List α}
    {f g : α → TypeId} (hf : ∀ x ∈ xs, t.Has (f x)) (hg : ∀ x ∈ xs, t.Has (g x)) :
    Repeats q t (xs.forM fun x => ops.inferFrom (f x) (g x) contravariant) :=
  .forM s fun x hx _ s' r' =>
    hops.inferFrom contravariant s' (r' (hf x hx)) (r' (hg x hx))

theorem repeats_intoUnion (hops : ops.Repeats q) (s : t.Sound) {members : List TypeId}
    (contravariant : Bool) (hms : t.Has members) (harg : t.Has arg) :
    Repeats q t (intoUnion ops members arg contravariant) := by
  unfold intoUnion
  refine .bind (repeats_splitNaked s hms) fun t1 split s1 r1 hsplit => ?_
  refine .members s1 (r1 harg) ?_
  have hargs : t1.Has (t1.unionMembers arg) := s1.below_unionMembers (r1 harg)
  show Repeats q t1 (if split.1.isEmpty = true then _ else _)
  split
  · refine .forM s1 fun a ha t2 s2 r2 => ?_
    exact repeats_inferPairs hops s2 (fun f hf => r2 (hsplit.2 f hf))
      fun _ _ => r2 (hargs a ha)
  · refine .bind (.filterM s1 hargs fun a ha t2 s2 r2 => ?_)
      fun t2 unmatched s2 r2 hu => ?_
    · refine .bind (.lifted (.anyM s2 fun f hf t3 s3 r3 => ?_))
        fun _ _ s3 _ _ => .pure s3 trivial
      have r3' := r2.trans r3
      exact hops.subtype s3 (r3' (hargs a ha)) (r3' (hsplit.2 f hf))
    · split
      · exact .pure s2 trivial
      · refine .bind (.of_stable (stable_unionOf s2 hu)) fun _ rest s3 _ hr => ?_
        exact repeats_addAll s3 hr

theorem repeats_remainder (s : t.Sound) {claimed : List String}
    (h : t.Has arg) : Repeats q t (remainder claimed arg) := by
  refine .node h ?_
  split
  · next o ho =>
    have ho : t.Has o := s.below_node ho
    exact .of_stable (stable_objectOf s (ho.1.filter _) ho.2)
  · exact .pure s h

section

variable (hops : ops.Repeats q) (s : t.Sound)
include hops s

theorem repeats_intoRow {members : List TypeId}
    (contravariant : Bool) (hms : t.Has members) (harg : t.Has arg) :
    Repeats q t (intoRow ops members arg contravariant) := by
  unfold intoRow
  refine .bind (repeats_splitNaked s hms) fun t1 split s1 r1 hsplit => ?_
  have harg := r1 harg
  refine .bind (.foldlM s1 (fun _ _ => trivial)
    fun f hf t2 claimed s2 r2 _ => ?_) fun t2 claimed s2 r2 _ => ?_
  · have hf := r2 (hsplit.2 f hf)
    refine .bind (hops.inferFrom _ s2 hf (r2 harg)) fun t3 _ s3 r3 _ => ?_
    exact .bind (.lifted (repeats_keyNames hops s3 (r3 hf)))
      fun _ _ s4 _ _ => .pure s4 fun _ _ => trivial
  · show Repeats q t2 (if split.1.isEmpty = true then _ else _)
    split
    · exact .pure s2 trivial
    · refine .bind (.lifted (repeats_remainder s2 (r2 harg)))
        fun _ rest s3 _ hr => ?_
      exact repeats_addAll s3 hr

theorem repeats_intoObject {param arg : ObjectShape}
    (contravariant : Bool) (hp : t.Has param) (ha : t.Has arg) :
    Repeats q t (intoObject ops param arg contravariant) := by
  unfold intoObject
  refine .bind (.forM s fun p hmem t1 s1 r1 => ?_) fun t1 _ s1 r1 _ => ?_
  · split
    · next type htype =>
      exact hops.inferFrom _ s1 (r1 (hp.1 p hmem)) (r1 (below_read? ha type htype))
    · exact .pure s1 trivial
  · split
    · next index hindex =>
      have hindex := r1 (hp.2 index hindex)
      refine .bind (repeats_inferPairs hops s1 (fun _ _ => hindex) fun p hmem =>
        r1 (ha.1 p hmem)) fun t2 _ s2 r2 _ => ?_
      split
      · next argIndex hai =>
        exact hops.inferFrom _ s2 (r2 hindex) ((r1.trans r2) (ha.2 argIndex hai))
      · exact .pure s2 trivial
    · exact .pure s1 trivial

theorem repeats_intoRest {p a : Option TypeId} (hp : t.Has p) (ha : t.Has a) :
    Repeats q t (intoRest ops contravariant p a) := by
  unfold intoRest
  split
  · next p a => exact hops.inferFrom _ s (below_some.1 hp) (below_some.1 ha)
  · exact .pure s trivial

theorem repeats_intoFunction {param arg : Signature}
    (contravariant : Bool) (hp : t.Has param) (ha : t.Has arg) :
    Repeats q t (intoFunction ops param arg contravariant) := by
  unfold intoFunction
  have hzip := Bounded.Below.zip hp.2.1 ha.2.1
  refine .bind (repeats_inferPairs hops s (fun x hx => (hzip x hx).1)
    fun x hx => (hzip x hx).2) fun t1 _ s1 r1 _ => ?_
  refine .bind (repeats_intoRest hops s1 (r1 hp.2.2.1) (r1 ha.2.2.1))
    fun t2 _ s2 r2 _ => ?_
  have r2' := r1.trans r2
  refine hops.inferFrom _ s2 (r2' hp.2.2.2.1) ?_
  split
  · exact s2.below_primitive .boolean
  · exact r2' ha.2.2.2.1

theorem repeats_expandParam (hp : t.Has param) (ha : t.Has arg) :
    Repeats q t (collect.expandParam ops param arg contravariant) := by
  unfold collect.expandParam
  refine .bind (.lifted (hops.evaluate s hp)) fun t1 expanded s1 r1 he => ?_
  split
  · exact .pure s1 trivial
  · exact hops.inferFrom _ s1 he (r1 ha)

theorem repeats_collect
    (contravariant : Bool) {paramTy argTy : Ty} (hp : t.Has param) (ha : t.Has arg)
    (hpt : t.Has paramTy) (hat : t.Has argTy) :
    Repeats q t (collect ops param arg contravariant paramTy argTy) := by
  unfold collect
  split
  · exact repeats_intoUnion hops s _ hpt ha
  · exact repeats_intoRow hops s _ hpt ha
  · split
    · have hzip := Bounded.Below.zip hpt hat
      exact repeats_inferPairs hops s (fun x hx => (hzip x hx).1) fun x hx => (hzip x hx).2
    · exact repeats_expandParam hops s hp ha
  · exact repeats_expandParam hops s hp ha
  · exact repeats_inferPairs hops s (fun _ _ => hp) fun m hm => hat m hm
  · exact repeats_intoObject hops s _ hpt hat
  · exact hops.inferFrom _ s hpt hat
  · exact repeats_inferPairs hops s (fun _ _ => hpt) fun e he => below_types hat e he
  · have hzip := Bounded.Below.zip hpt.1 hat.1
    refine .bind (repeats_inferPairs hops s (fun x hx => (hzip x hx).1)
      fun x hx => (hzip x hx).2) fun t1 _ s1 r1 _ => ?_
    exact repeats_intoRest hops s1 (r1 hpt.2) (r1 hat.2)
  · exact repeats_intoFunction hops s _ hpt hat
  · exact hops.inferFrom _ s hpt hat
  · exact hops.inferFrom _ s hpt ha
  · exact .pure s trivial

theorem repeats_visit (contravariant : Bool) (hp : t.Has param) (ha : t.Has arg) :
    Repeats q t (visit ops param arg contravariant) := by
  unfold visit
  refine .node hp ?_
  split
  · exact repeats_addCandidate s ha
  · refine Repeating.getThe (fun i i' hv => ?_) fun i _ => ?_
    · simp only [mentions_of_view hv]
    refine .table (fun t' g => ?_) ?_
    · simp only [mentions_of_grows s g hp]
    split
    · refine .bind (.lifted (hops.evaluate s ha)) fun t1 arg s1 r1 ha => ?_
      refine .node ha ?_
      exact repeats_collect hops s1 _ (r1 hp) ha (r1 (s.below_resolve param))
        (s1.below_resolve arg)
    · exact .pure s trivial

theorem repeats_step (hp : t.Has param) (ha : t.Has arg) :
    Repeats q t (step ops param arg contravariant) := by
  unfold step
  intro i i' hi hv
  show RepeatsAs q _ t ((if _ then _ else _ : InferM Unit).run i)
    ((if _ then _ else _ : InferM Unit).run i')
  rw [visited_of_view hv]
  split
  · exact .pure s ⟨trivial, hi⟩ (by rw [hv])
  · have visit := Repeating.guarded (σ := Inference) (a := ()) s trivial
      (repeats_visit hops s.deeper contravariant hp ha)
    refine visit { i with visited := _ } { i' with visited := _ } hi ?_
    exact view_of_bare (g := fun j => { j with visited := _ }) (fun _ => rfl) hv

end

/-! ### Solving -/

/-- A variable is made again, as another one. -/
theorem repeats_freshVariable (s : t.Sound) :
    RepeatsAs q (fun _ => ()) t freshVariable freshVariable := by
  have first : Leaves Runs t freshVariable _ := safe_freshVariable s
  refine ⟨first.sound, first.related, first.post, fun _ _ t' p => ?_⟩
  have second : Leaves Runs t' freshVariable _ := safe_freshVariable p.sound
  refine ⟨_, _, rfl, rfl, second.sound, second.related, ?_⟩
  have guard : ∀ (t : TypeTable) (ty : Ty), (t.insert ty).2.depthError = t.depthError := by
    intro t ty
    unfold TypeTable.insert
    split <;> rfl
  exact (guard _ _).trans p.untripped

/-- A change of the inference that uses a new variable only where the view leaves it out. -/
theorem repeats_withVariable {g : TypeId → Inference → Inference} (s : t.Sound)
    (hg : ∀ n var i, t.size ≤ n → Below n var → Below n i → Below n (g var i))
    (hview : ∀ var var' i i', view i' = view i → view (g var' i') = view (g var i)) :
    Repeats q t (do
      let var ← (freshVariable : TableM TypeId)
      modifyThe Inference (g var) : InferM PUnit) := by
  intro i i' hi hv
  show RepeatsAs q _ t (freshVariable >>= fun var => pure ((), g var i))
    (freshVariable >>= fun var => pure ((), g var i'))
  refine (repeats_freshVariable s).bind
    fun t1 var var' s1 r1 hvar _ => .pure s1 ⟨trivial, ?_⟩ ?_
  · exact hg _ var i r1.size_le hvar (r1 hi)
  · rw [hview var var' i i' hv]

theorem repeats_captureRow (hops : ops.Repeats q) (s : t.Sound)
    (hp : t.Has param) (ha : t.Has arg) : Repeats q t (captureRow ops param arg) := by
  unfold captureRow
  refine .bind (.lifted (hops.evaluate s hp)) fun t1 param s1 r1 hp => ?_
  refine .bind (.lifted (hops.evaluate s1 (r1 ha)))
    fun t2 arg s2 r2 ha => ?_
  have hp := r2 hp
  refine .table (fun t' g => ?_) ?_
  · simp only [g.resolve hp, g.resolve ha]
  split
  · next p a hpres hares =>
    have hextra := (s2.below_node hares).1.filter fun q => (p.property? q.name).isNone
    dsimp only
    split
    · exact .pure s2 trivial
    · refine .bind (.of_stable (stable_objectOf s2 hextra below_none))
        fun t3 fields s3 r3 hf => repeats_withVariable s3 (fun n var i hn hvar hi => ?_)
          fun var var' i i' hv => ?_
      · exact ⟨hi.1, below_append.2 ⟨hi.2, below_singleton.2 ⟨hvar, Bounded.mono hn hf⟩⟩⟩
      · have bare : i'.bare = i.bare := hv
        have row : ∀ (i : Inference) var, Inference.bare { i with rows := i.rows ++ [⟨var, fields⟩] } =
            { i.bare with rows := i.bare.rows ++ [⟨.never, fields⟩] } := by
          intro i var
          simp [Inference.bare]
        show Inference.bare _ = Inference.bare _
        rw [row, row, bare]
  · exact .pure s2 trivial

theorem repeats_infer (hops : ops.Repeats q) (s : t.Sound)
    (hp : t.Has param) (ha : t.Has arg) : Repeats q t (infer ops param arg) :=
  .bind (hops.inferFrom false s hp ha) fun _ _ s1 r1 _ =>
    repeats_captureRow hops s1 (r1 hp) (r1 ha)

/-- Inferring from pairs of types, one after the other. -/
theorem repeats_inferAll (hops : ops.Repeats q) (s : t.Sound) {pairs : List (TypeId × TypeId)}
    (h : t.Has pairs) : Repeats q t (pairs.forM fun p => infer ops p.1 p.2) :=
  .forM s fun p hp _ s' r' =>
    repeats_infer hops s' (r' (h p hp).1) (r' (h p hp).2)

theorem repeats_start (s : t.Sound) {params : List TypeId} (h : t.Has params) :
    RepeatsAs q Inference.bare t (start params) (start params) := by
  unfold start
  refine RepeatsAs.bind (RepeatsAs.mapM (v := InferenceVar.bare) s fun p hp t1 s1 r1 => ?_)
    fun t1 vars vars' s1 _ hvars hv => .pure s1 ⟨hvars, below_nil⟩ ?_
  · have hp := r1 (h p hp)
    refine RepeatsAs.reading (c := resolve p) (fun _ => rfl) fun t' g _ => ?_
    have same : ((resolve p : TableM Ty) t').1 = ((resolve p : TableM Ty) t1).1 := g.resolve hp
    rw [same]
    generalize hnode : ((resolve p : TableM Ty) t1).1 = node
    refine (repeats_freshVariable s1).bind fun t2 var var' s2 r2 hvar _ => .pure s2 ?_ ?_
    · split
      · next q =>
        have hq : t2.Has q := r2 (s1.below_node hnode)
        exact ⟨⟨r2 hp, hvar⟩, hq, below_nil, below_nil⟩
      · exact ⟨⟨r2 hp, hvar⟩, ⟨below_none, below_none⟩, below_nil, below_nil⟩
    · cases node <;> rfl
  · show ({ vars := _, rows := _ } : Inference) = { vars := _, rows := _ }
    rw [hv]

theorem repeats_keepsLiterals (hops : ops.Repeats q) (s : t.Sound) {bound : Option TypeId}
    (h : t.Has bound) : Repeats q t (keepsLiterals ops bound) := by
  unfold keepsLiterals
  split
  · exact .pure s trivial
  · next bound =>
    have hbound := below_some.1 h
    refine .node hbound ?_
    split
    · exact .pure s trivial
    · refine .bind (hops.evaluate s hbound) fun t1 evaluated s1 _ he => ?_
      refine .table (fun t' g => ?_) (.pure s1 trivial)
      have same : t'.unionMembers evaluated = t1.unionMembers evaluated :=
        (s1.agreeBelow g).unionMembers he
      have literals : (t1.unionMembers evaluated).all (fun m => isLiteralLike (t'.resolve m)) =
          (t1.unionMembers evaluated).all fun m => isLiteralLike (t1.resolve m) := by
        rw [Bool.eq_iff_iff, all_eq_true, all_eq_true]
        refine forall_congr' fun m => imp_congr_right fun hm => ?_
        rw [g.resolve (s1.below_unionMembers he m hm)]
      simp only [same, literals]

theorem repeats_joinCandidates (hops : ops.Repeats q) (s : t.Sound)
    (h : t.Has v) : Repeats q t (joinCandidates ops v) := by
  unfold joinCandidates
  split
  · refine .bind (.of_stable (stable_unionOf s h.2.2.1)) fun t1 joined s1 r1 hj => ?_
    refine .bind (repeats_keepsLiterals hops s1 (r1 h.2.1.1))
      fun t2 keeps s2 r2 _ => ?_
    have hj := r2 hj
    split
    · exact .pure s2 (below_some.2 hj)
    · exact .map (.of_stable (stable_widenLiterals s2 hj))
        fun _ _ h => below_some.2 h
  · split
    · exact .map (.of_stable (stable_intersectionOf s h.2.2.2))
        fun _ _ h => below_some.2 h
    · exact .pure s below_none

theorem repeats_fallbackSolution (hops : ops.Repeats q) (s : t.Sound) {σ : Substitution}
    (hσ : t.Has σ) (hv : t.Has v) : Repeats q t (fallbackSolution ops σ v) := by
  unfold fallbackSolution
  split
  · next d hd => exact hops.substitute s hσ (hv.2.1.2.or hv.2.1.1 d hd)
  · exact .pure s s.below_unknown

/-- What is asked of the parameters solved so far. -/
def Solving.settled (state : Solving) : Substitution × List InferenceFailure :=
  (state.params, state.failures)

theorem repeats_solveVar (hops : ops.Repeats q) (s : t.Sound) {state state' : Solving}
    {v' : InferenceVar} (hstate : t.Has state) (hv : t.Has v)
    (same : state'.settled = state.settled) (bare : v'.bare = v.bare) :
    RepeatsAs q Solving.settled t (solveVar ops state v) (solveVar ops state' v') := by
  obtain ⟨hσ, hvars, hfailures⟩ := hstate
  obtain ⟨params, failures⟩ := Prod.mk.inj same
  -- The two parameters differ in their variables only, which are not looked at.
  obtain ⟨var, rfl⟩ : ∃ var, v' = { v with var := var } := by
    cases v
    cases v'
    simp only [InferenceVar.bare, InferenceVar.mk.injEq] at bare
    obtain ⟨rfl, -, rfl, rfl, rfl, rfl, rfl⟩ := bare
    exact ⟨_, rfl⟩
  unfold solveVar
  refine RepeatsAs.bind (v := id) (repeats_joinCandidates hops s hv)
    fun t1 joined joined' s1 r1 hj hjoined => ?_
  obtain rfl : joined' = joined := hjoined
  rw [params, failures]
  -- Wherever the type of the parameter comes from, it is checked against the bound.
  cases joined'
  case' none =>
    refine RepeatsAs.bind (v := id) (repeats_fallbackSolution hops s1 (r1 hσ) (r1 hv))
      fun t2 inferred inferred' s2 r2 hi hinferred => ?_
  case' some type =>
    have found : Repeats q t1 (pure type : TableM TypeId) := .pure s1 (below_some.1 hj)
    refine RepeatsAs.bind (v := id) found fun t2 inferred inferred' s2 r2 hi hinferred => ?_
  all_goals
    obtain rfl : inferred' = inferred := hinferred
    have r2 := r1.trans r2
    have hv := r2 hv
    have hσ' := below_insert (r2 hσ) hv.1.1 hi
    have hvars' : t2.Has (state.vars ++ [(v.var, inferred')]) :=
      below_append.2 ⟨r2 hvars, below_singleton.2 ⟨hv.1.2, hi⟩⟩
    dsimp only
    cases hb : v.bound with
    | none => exact .pure s2 ⟨hσ', hvars', r2 hfailures⟩ rfl
    | some bound =>
      refine RepeatsAs.bind (v := id) (hops.substitute s2 hσ' (hv.2.1.1 bound hb))
        fun t3 bound bound' s3 r3 hb hbound => ?_
      obtain rfl : bound' = bound := hbound
      refine RepeatsAs.bind (v := id) (hops.subtype s3 (r3 hi) hb)
        fun t4 fits fits' s4 r4 _ hfits => ?_
      obtain rfl : fits' = fits := hfits
      have r4' := r3.trans r4
      have hf := (r2.trans r4') hfailures
      cases fits' with
      | true => exact .pure s4 ⟨r4' hσ', r4' hvars', hf⟩ rfl
      | false =>
        refine .pure s4 ⟨r4' hσ', r4' hvars',
          below_append.2 ⟨hf, below_singleton.2 ?_⟩⟩ rfl
        exact ⟨r4' hv.1.1, r4' hi, r4 hb⟩

/-- **Two inferences of one call solve the parameters alike.** -/
theorem repeats_solveAll (hops : ops.Repeats q) (s : t.Sound) (hi : t.Has i)
    (hv : view i' = view i) : RepeatsAs q Solving.settled t (solveAll ops i) (solveAll ops i') := by
  have loop : ∀ (vs vs' : List InferenceVar) (t : TypeTable) (state state' : Solving), t.Sound →
      t.Has vs → t.Has state → vs'.map InferenceVar.bare = vs.map .bare →
      state'.settled = state.settled → RepeatsAs q Solving.settled t
        (vs.foldlM (solveVar ops) state) (vs'.foldlM (solveVar ops) state') := by
    intro vs
    induction vs with
    | nil =>
      intro vs' t state state' s _ hstate hvs same
      obtain rfl := map_eq_nil_iff.1 hvs
      exact .pure s hstate same
    | cons v vs ih =>
      intro vs' t state state' s hvs hstate hbare same
      cases vs' with
      | nil => cases hbare
      | cons v' vs' =>
        obtain ⟨hv, hvs⟩ := below_cons.1 hvs
        obtain ⟨bare, hbare⟩ := List.cons.inj hbare
        rw [foldlM_cons, foldlM_cons]
        exact (repeats_solveVar hops s hstate hv same bare).bind
          fun t1 state state' s1 r1 hstate same =>
            ih vs' t1 state state' s1 (r1 hvs) hstate hbare same
  refine loop i.vars i'.vars t {} {} s hi.1 ⟨below_empty, below_nil, below_nil⟩ ?_ rfl
  exact congrArg Inference.vars (show i'.bare = i.bare from hv)

/-! ### The answers to a call -/

theorem safe_start (s : t.Sound) {params : List TypeId} (h : t.Has params) :
    Safe t (start params) :=
  (repeats_start (q := False) s h).safe

section

variable (hops : ops.Safe) (s : t.Sound)
include hops s

theorem safe_infer (hp : t.Has param) (ha : t.Has arg) : Safe t (infer ops param arg) :=
  Repeating.safe (repeats_infer hops.repeats s hp ha)

theorem safe_inferAll {pairs : List (TypeId × TypeId)}
    (h : t.Has pairs) : Safe t (pairs.forM fun p => infer ops p.1 p.2) :=
  Repeating.safe (repeats_inferAll hops.repeats s h)

theorem safe_partialSolution (h : t.Has i) : Safe t (partialSolution ops i) := by
  refine Tabled.Keeps.foldlM s below_empty fun v hv t1 σ s1 r1 hσ => ?_
  have hv := r1 (h.1 v hv)
  refine (repeats_joinCandidates hops.repeats s1 hv).safe.bind fun t2 type s2 r2 ht => ?_
  split
  · next type =>
    exact .pure s2 (below_insert (r2 hσ) (r2 hv.1.1) (below_some.1 ht))
  · exact .pure s2 (r2 hσ)

theorem safe_solve (h : t.Has i) : Safe t (solve ops i) := by
  unfold solve
  refine (repeats_solveAll hops.repeats s h rfl).safe.bind fun t1 solved s1 r1 hs => ?_
  refine .pure s1 ⟨?_, hs.2.2, r1 h.2⟩
  have entries : t1.Has (solved.vars ++ i.rows.map fun row => (row.var, row.fields)) :=
    below_append.2 ⟨hs.2.1, Bounded.Below.map fun row hrow => r1 (h.2 row hrow)⟩
  exact Bounded.Below.foldl hs.1 fun σ hσ e he =>
    below_insert hσ (entries e he).1 (entries e he).2

end

/-- Pairs of parameter and argument types by their places. -/
theorem below_pairs (pair : TypeId → TypeId → TypeId × TypeId) {f : Signature} {α : Type}
    {args : List α} {g : α → TypeId} (hf : Below n f) (hargs : ∀ a ∈ args, Below n (g a))
    (hpair : ∀ a b, Below n a → Below n b → Below n (pair a b)) :
    Below n ((withPlaces args).filterMap fun p =>
      (f.paramAt? p.1).map fun param => pair param (g p.2)) := by
  refine Bounded.Below.filterMap fun p hp q hq => ?_
  obtain ⟨param, hparam, rfl⟩ := Option.map_eq_some_iff.1 hq
  exact hpair _ _ (below_paramAt? hf _ param hparam) (hargs p.2 (of_mem_zip hp).2)

theorem safe_inferCall (hops : ops.Safe) (s : t.Sound) {f : Signature} {args : List TypeId}
    (hf : t.Has f) (hargs : t.Has args) : Safe t (inferCall ops f args) := by
  unfold inferCall
  refine (safe_start s hf.1).bind fun t1 start s1 r1 hstart => ?_
  have hpairs := below_pairs (fun a b => (a, b)) hf hargs fun _ _ ha hb => ⟨ha, hb⟩
  refine ((safe_inferAll hops s1 (r1 hpairs)).run hstart).bind fun t2 p s2 _ hp => ?_
  exact safe_solve hops s2 hp.2

end Inference

end GradualTyping
