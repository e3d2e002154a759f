/-
# The operations of the library are safe

By induction on the levels, the guarded operations are safe at every depth
(`safe_withLevels`), and so are the operations of the library that start at the
depth of their table.  Declaring and defining aliases and taking the error of the
recursion guard change what the guarded operations leave alone: they only grow the
table.
-/

import GradualTyping.Aliases
import GradualTyping.Proofs.Sound.Subtyping

namespace GradualTyping

open TypeTable Reduction Operations Substitution

/-! ### The levels -/

theorem Operations.safe_inert : inert.Safe where
  layer := ⟨0, fun _ _ _ => rfl⟩
  evaluate s h := .pure s h
  isSubtype _ s _ _ := .pure s trivial
  substituteIn s _ h := .pure s h
  matchPattern _ s _ _ := .pure s trivial
  inferFrom _ s _ _ := .pure s trivial
  awaited s h := .pure s h

theorem Operations.safe_above {deeper : Unit → Operations} (h : (deeper ()).Safe)
    (layer : ∃ n, ∀ id t, (step (above deeper) id t).2.Untripped →
      (withLevels n).evaluate id t = step (above deeper) id t) :
    (above deeper).Safe where
  layer := layer
  evaluate s hid := safe_step h s hid
  isSubtype _ s hsub hsup :=
    Subtyping.safe_step h (fun _ _ _ _ s' ha hb => h.isSubtype _ s' ha hb) s hsub hsup
  substituteIn s hσ hid := Repeating.safe (repeats_step h.repeats s hσ hid)
  matchPattern _ s hp hs := safe_matchStep h s hp hs
  inferFrom _ s hp ha :=
    Repeating.safe (Inference.repeats_step h.repeats s hp ha)
  awaited s hid := Promise.safe_step h s hid

/-- **The guarded operations are safe at every depth.** -/
theorem Operations.safe_withLevels (n : Nat) : (withLevels n).Safe := by
  induction n with
  | zero => exact safe_above safe_inert ⟨1, fun _ _ _ => rfl⟩
  | succ n ih => exact safe_above ih ⟨n + 2, fun _ _ _ => rfl⟩

/-- Evaluation leaves alone what needs no evaluation. -/
def Operations.Idle (ops : Operations) : Prop :=
  ∀ {t : TypeTable} {id : TypeId}, t.Sound → needsEvaluation t id = false →
    ops.evaluate id t = (id, t)

theorem Operations.idle_withLevels (n : Nat) : (withLevels n).Idle := fun s h => by
  cases n <;> exact step_of_plain s h

/-- Evaluation at a level is a step over such operations. -/
theorem Operations.evaluate_step {n : Nat} : ∃ deeper : Operations, deeper.Safe ∧ deeper.Idle ∧
    ∀ id, (withLevels n).evaluate id = step deeper id := by
  cases n with
  | zero => exact ⟨inert, safe_inert, fun _ _ => rfl, fun _ => rfl⟩
  | succ n => exact ⟨withLevels n, safe_withLevels n, idle_withLevels n, fun _ => rfl⟩

theorem safe_operations (t : TypeTable) : t.operations.Safe := safe_withLevels _

/-! ### The operations on the current table -/

section Current

variable {t : TypeTable} (s : t.Sound)
variable {id : TypeId} {name : String}

include s

theorem safe_evaluate (h : t.Has id) : Safe t (evaluate id) :=
  .read rfl ((safe_operations t).evaluate s h)

theorem safe_evaluateNode (h : t.Has id) : Safe t (evaluateNode id) :=
  (safe_evaluate s h).bind fun _ _ s1 _ _ => .read rfl (.pure s1 (s1.below_resolve _))

theorem safe_isSubtype {sub sup : TypeId} (hsub : t.Has sub) (hsup : t.Has sup) :
    Safe t (isSubtype sub sup) :=
  .read rfl ((safe_operations t).subtype s hsub hsup)

theorem safe_isEqual {a b : TypeId} (ha : t.Has a) (hb : t.Has b) : Safe t (isEqual a b) :=
  Subtyping.safe_bothWays (fun s' ha hb => safe_isSubtype s' ha hb) s ha hb

theorem safe_substitute {σ : Substitution} (hσ : t.Has σ)
    (hid : t.Has id) : Safe t (substitute σ id) :=
  .read rfl ((safe_operations t).substitute s hσ hid)

theorem safe_awaited (h : t.Has id) : Safe t (awaited id) :=
  .read rfl ((safe_operations t).awaited s h)

theorem safe_unwrapOnce (h : t.Has id) : Safe t (unwrapOnce id) :=
  .read rfl (Promise.safe_unwrapOnce (safe_operations t) s h)

theorem safe_wrapAsyncResult {body : TypeId} (h : t.Has body) : Safe t (wrapAsyncResult body) :=
  .read rfl (Promise.safe_wrapResult (safe_operations t) s h)

theorem safe_declaredAsyncResult? {declared : TypeId} (h : t.Has declared) :
    Safe t (declaredAsyncResult? declared) :=
  .read rfl (Promise.safe_declaredResult? (safe_operations t) s h)

theorem safe_builtinMember? (h : t.Has id) (name : String) : Safe t (builtinMember? id name) :=
  .read rfl (Members.safe_member? (safe_operations t) s h)

theorem safe_keyNames (h : t.Has id) : Safe t (keyNames id) :=
  .read rfl (Reduction.safe_keyNames (safe_operations t) s h)

theorem safe_inferCall {f : Signature} {args : List TypeId} (hf : t.Has f)
    (hargs : t.Has args) : Safe t (inferCall f args) :=
  .read rfl (Inference.safe_inferCall (safe_operations t) s hf hargs)

/-! ### The error of the guard -/

theorem growing_takeDepthError : Growing t takeDepthError :=
  ⟨s.of_rest rfl rfl rfl rfl rfl, ⟨⟨List.prefix_refl _, rfl⟩, rfl, rfl, rfl, id, .inl⟩,
    fun _ _ => trivial⟩

theorem growing_checkSubtype {sub sup : TypeId} (hsub : t.Has sub)
    (hsup : t.Has sup) : Growing t (checkSubtype sub sup) := by
  unfold checkSubtype
  refine (safe_isSubtype s hsub hsup).weaken.bind fun t1 result s1 _ _ => ?_
  refine (growing_takeDepthError s1).bind fun t2 error s2 _ _ => ?_
  split
  · exact .pure s2 fun _ _ => trivial
  · exact .pure s2 fun _ _ => trivial

/-! ### Aliases -/

theorem growing_setAlias {a : Alias} (ha : t.Has a) :
    Keeps Continues t (modify fun t => { t with aliases := t.aliases.insert name a } : TableM PUnit)
      fun _ _ => True :=
  keeps_modify (s.setAlias ha) ⟨⟨List.prefix_refl _, rfl⟩, rfl, rfl, rfl, id, .inl⟩

theorem growing_declareAlias {params : List TypeId} (h : t.Has params) :
    Growing t (declareAlias name params) := by
  refine (safe_referenceTo s h).weaken.bind fun t1 self s1 g1 hself => ?_
  refine (growing_setAlias s1 ⟨g1 h, below_none⟩).bind fun t2 _ s2 g2 _ => ?_
  exact .pure s2 (g2 hself)

omit s in
theorem defineAlias_run (name : String) (body : TypeId) (t : TypeTable) :
    (defineAlias name body).run t =
      (t.alias? name).elim (.error (.undefinedType name), t) fun declared =>
        if t.resolve body = .reference name declared.params then
          (.error (.circularReference name), t)
        else (.ok (), { t with
          aliases := t.aliases.insert name { declared with body := some body } }) := by
  have read (k : TypeTable → TypeM Unit) : (getThe TypeTable >>= k).run t = (k t).run t := rfl
  rw [defineAlias, read]
  cases t.alias? name with
  | none => rfl
  | some declared =>
    dsimp only [Option.elim]
    split
    · rfl
    · rfl

theorem growing_defineAlias {body : TypeId} (h : t.Has body) :
    Growing t (defineAlias name body) := by
  unfold defineAlias
  refine .readLift s rfl ?_
  split
  · exact .throw s
  · next declared hd =>
    have hd := s.aliases hd
    split
    · exact Tabled.Keeps.bind (Q := fun _ _ => False) (.throw s) fun _ _ _ _ h => h.elim
    · exact ⟨s.setAlias (a := { declared with body := some body }) ⟨hd.1, below_some.2 h⟩,
        ⟨⟨List.prefix_refl _, rfl⟩, rfl, rfl, rfl, id, .inl⟩, fun _ _ => trivial⟩

theorem TypeTable.Sound.below_param? (id : TypeId) : t.Has (t.param? id) := by
  intro p hp
  unfold TypeTable.param? at hp
  split at hp
  · next q hq => exact Option.some.inj hp ▸ s.below_node hq
  · cases hp

theorem safe_bindArguments {params args : List TypeId} {σ : Substitution}
    (hparams : t.Has params) (hargs : t.Has args) (hσ : t.Has σ) :
    Safe t (bindArguments params args σ) := by
  induction params generalizing t args σ with
  | nil =>
    unfold bindArguments
    exact .pure s below_nil
  | cons param params ih =>
    obtain ⟨hparam, hparams⟩ := below_cons.1 hparams
    have hdeclared := s.below_param? param
    unfold bindArguments
    refine .readLift s rfl ?_
    extract_lets declared bound
    have bound_safe : ∀ t1 arg, t1.Sound → t.Runs t1 → t1.Has arg → Safe t1 (bound arg) := by
      intro t1 arg s1 r1 harg
      have hσ' := below_insert (r1 hσ) (r1 hparam) harg
      have others : ∀ t2, t2.Sound → t1.Runs t2 → Safe t2 (do
          return arg :: (← bindArguments params args.tail (σ.insert param arg)) : TypeM _) := by
        intro t2 s2 r2
        have r2' := r1.trans r2
        refine (ih s2 (r2' hparams) (r2' hargs.tail)
          (r2 hσ')).bind fun t3 full s3 r3 hfull => .pure s3 ?_
        exact below_cons.2 ⟨(r2.trans r3) harg, hfull⟩
      dsimp only [bound]
      split
      · next b hb =>
        obtain ⟨p, hp, hpb⟩ := Option.bind_eq_some_iff.1 hb
        refine (safe_substitute s1 hσ' (r1 ((hdeclared p hp).1 b hpb))).lift.bind
          fun t2 b s2 r2 hb => ?_
        refine (safe_isSubtype s2 (r2 harg) hb).lift.bind fun t3 fits s3 r3 _ => ?_
        split
        · exact others t3 s3 (r2.trans r3)
        · refine .readLift s3 rfl (.readLift s3 rfl ?_)
          exact Tabled.Keeps.bind (Q := fun _ _ => False) (.throw s3) fun _ _ _ _ h => h.elim
      · exact others t1 s1 (.refl t1)
    split
    · next arg tail => exact bound_safe t arg s (.refl t) (below_cons.1 hargs).1
    · split
      · next fallback hf =>
        obtain ⟨p, hp, hpf⟩ := Option.bind_eq_some_iff.1 hf
        exact (safe_substitute s hσ ((hdeclared p hp).2 fallback hpf)).lift.bind
          fun t1 arg s1 r1 harg => bound_safe t1 arg s1 r1 harg
      · exact bound_safe t _ s (.refl t) s.below_unknown

theorem safe_instantiateAlias {args : List TypeId} (hargs : t.Has args) :
    Safe t (instantiateAlias name args) := by
  unfold instantiateAlias
  refine .readLift s rfl ?_
  split
  · exact .throw s
  · next declared hd =>
    split
    · exact Tabled.Keeps.bind (Q := fun _ _ => False) (.throw s) fun _ _ _ _ h => h.elim
    · refine (safe_bindArguments s (s.aliases hd).1 hargs below_empty).bind ?_
      exact fun t1 full s1 _ hfull => (safe_referenceTo s1 hfull).lift

end Current

end GradualTyping
