/-
# Comparison is safe

The rules of comparison are written for any monad over a table; so are their
triples.  A rule is safe when its questions are: safety is a relation between a
run and itself that every connective respects.
-/

import GradualTyping.Proofs.Comparison.Tandem

namespace GradualTyping

open TypeTable

theorem below_function? {n : Nat} {ty : Ty} (h : Below n ty) : Below n ty.function? := by
  intro f hf
  cases ty <;> cases hf
  exact h

theorem TypeTable.AgreeBelow.comparedReduced {n : Nat} {t t' : TypeTable} (h : AgreeBelow n t t')
    {id : TypeId} (hid : Below n id) :
    Subtyping.needsEvaluation t' id = Subtyping.needsEvaluation t id := by
  have hres := h.resolve hid
  have hclosed := h.closed hid
  unfold Subtyping.needsEvaluation
  rw [hres]
  split
  · next ms hms =>
    rw [hms] at hclosed
    rw [Bool.eq_iff_iff, List.any_eq_true, List.any_eq_true]
    exact exists_congr fun m => and_congr_right fun hm => by rw [h.isReducible (hclosed m hm)]
  · rfl

namespace Subtyping

theorem settled_congr {t t' : TypeTable} (g : t.Grows t') {a b : TypeId} (ha : t.Has a)
    (hb : t.Has b) : settled t' a b = settled t a b := by
  rw [settled, g.resolve ha, g.resolve hb]
  rfl

section Steps

variable {q : Prop} {ops : Operations} {t : TypeTable}

theorem repeats_reduced? (hops : ops.Repeats q) (s : t.Sound) {id : TypeId}
    (hid : t.Has id) : Repeats q t (reduced? ops id) := by
  unfold reduced?
  refine .table (fun t' g => ?_) ?_
  · rw [(s.agreeBelow g).comparedReduced hid]
  · split
    · refine .bind (hops.evaluate s hid) fun t1 evaluated s1 _ he => .pure s1 ?_
      split
      · exact below_none
      · exact below_some.2 he
    · exact .pure s below_none

theorem repeats_instantiate (hops : ops.Repeats q) (s : t.Sound) {f : Signature} {σ : Substitution}
    (hf : t.Has f) (hσ : t.Has σ) : Repeats q t (instantiate ops f σ) := by
  unfold instantiate
  refine .bind (.of_stable (m := TableM)
    (stable_functionOf (f := { f with typeParams := [] }) s ⟨below_nil, hf.2⟩))
    fun t1 id s1 r1 hid => ?_
  refine .bind (hops.substitute s1 (r1 hσ) hid) fun t2 instantiated s2 r2 hi => ?_
  refine .node (m := TableM) hi (.pure s2 ?_)
  exact (below_function? (s2.below_resolve instantiated)).getD ((r1.trans r2) hf)

theorem repeats_adapt (hops : ops.Repeats q) (s : t.Sound) {f g : Signature} (hf : t.Has f)
    (hg : t.Has g) : Repeats q t (adapt ops f g) := by
  unfold adapt
  split
  · exact .pure s hf
  split
  · exact repeats_instantiate hops s hf (Substitution.below_ofList (hf.1.zip hg.1))
  · have hpairs := Inference.below_pairs (fun target param => (param, target)) hg hf.2.1
      fun _ _ ha hb => ⟨hb, ha⟩
    -- The two runs start from different variables, and solve the parameters alike.
    refine (Inference.repeats_start s hf.1).bind fun t1 start start' s1 r1 hstart bare => ?_
    refine (Inference.repeats_inferAll hops s1 (r1 hpairs) start start' hstart bare).bind
      fun t2 inferred inferred' s2 r2 hi same => ?_
    refine (Inference.repeats_solveAll hops s2 hi.2 (Prod.mk.inj same).2).bind
      fun t3 solved solved' s3 r3 hs same => ?_
    rw [(Prod.mk.inj same).1]
    exact repeats_instantiate hops s3 (((r1.trans r2).trans r3).below hf) hs.1

theorem safe_reduced? (hops : ops.Safe) (s : t.Sound) {id : TypeId} (hid : t.Has id) :
    Safe t (reduced? ops id) :=
  (repeats_reduced? hops.repeats s hid).safe

theorem safe_adapt (hops : ops.Safe) (s : t.Sound) {f g : Signature} (hf : t.Has f)
    (hg : t.Has g) : Safe t (adapt ops f g) :=
  (repeats_adapt hops.repeats s hf hg).safe

end Steps

section Rules

variable {m : Type → Type} [Monad m] [MonadLiftT TableM m] [Tabled m] {ops : Operations}
  {t : TypeTable} {ask : Ask m}

/-- Questions about types of a table. -/
def SafeAsk (ask : Ask m) : Prop :=
  ∀ {t : TypeTable} {a b : TypeId}, t.Sound → Below t.size a → Below t.size b → Safe t (ask a b)

/-- Every connective is safe when its parts are. -/
theorem tandem_safe (hops : ops.Safe) (h : SafeAsk ask) :
    Tandem ops ops ask ask (fun _ => True) (fun t c _ => Safe t c) (fun t c _ => Safe t c) where
  const s _ := .pure s trivial
  atom s ha hb := h s ha hb
  and hc hd := by
    refine hc.bind fun t1 holds s1 r1 _ => ?_
    split
    · exact hd t1 s1 r1
    · exact .pure s1 trivial
  both hc hd := hc.bind fun t1 _ s1 r1 _ =>
    (hd t1 s1 r1).bind fun _ _ s2 _ _ => .pure s2 trivial
  any s hps := .anyM s fun p hp _ s1 r1 => h s1 (r1 (hps p hp).1) (r1 (hps p hp).2)
  read {t} _ _ _ _ s hc k := .readLift s (hc t) (k t (.refl s))
  run hc k := hc.lift.bind fun t1 a s1 r1 => k t1 a s1 r1
  reduced? s hid := safe_reduced? hops s hid
  member? s hid := Members.safe_member? hops s hid
  anyKey s := Reduction.safe_anyKey s
  adapt s hf hg _ := safe_adapt hops s hf hg

theorem safe_bothWays (h : SafeAsk ask) (s : t.Sound) {a b : TypeId} (ha : t.Has a)
    (hb : t.Has b) : Safe t (bothWays ask a b) := by
  unfold bothWays
  split
  · exact .pure s trivial
  · refine (h s ha hb).bind fun t1 holds s1 r1 _ => ?_
    split
    · exact h s1 (r1 hb) (r1 ha)
    · exact .pure s1 trivial

theorem safe_step [LawfulMonad m] [Guarding m] (hops : ops.Safe) {ask : Assumptions → Ask m}
    (h : ∀ assumed, SafeAsk (ask assumed)) (s : t.Sound) {assumed : Assumptions}
    {sub sup : TypeId} (hsub : t.Has sub) (hsup : t.Has sup) :
    Safe t (step ops ask assumed sub sup) := by
  unfold step
  refine .readLift s rfl ?_
  split
  · exact .pure s trivial
  split
  · exact .pure s trivial
  · refine Guarding.guarded s trivial ?_
    exact (tandem_safe hops (h _)).clause s.deeper hsub hsup fun _ _ _ _ => trivial

end Rules

end Subtyping

end GradualTyping
