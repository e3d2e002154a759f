/-
# Parts of a program that keep a variable below its type

Where paths of a program meet, what is known of a variable on one of them has to cover the
ends of the others.  A part of a program that only tests a variable keeps it below the type
that the variable has at the start of the part.  A part that assigns to it keeps it below its
declared type, and so below the type at the start if that is the declared one.

Both are regions in which the variable may be followed through the part (`Tame.region`).
-/

import GradualTyping.Proofs.Tracking.Declared

namespace GradualTyping

open TypeTable

variable {b : LocalVariable}
variable {t : TypeTable} {s : CheckState}

/-! ### The region below a type -/

/-- What a variable that is not assigned to may come to from a type, inside it if it is
plain. -/
def Region.below (C : TypeId) : Region where
  Has _ t type := Below t.size C ∧ (t.Plain C → t.Inside C type)
  askable := False
  assignable := False
  later s g _ htype h := ⟨g h.1, fun plain =>
    (h.2 (plain.of_grows s g h.1)).grows s g h.1 htype⟩
  union s _ ha hb has hbs := by
    have hxs := below_pair.2 ⟨ha, hb⟩
    have made : Leaves Runs _ (unionOf _) _ := safe_unionOf s hxs
    refine ⟨made.sound, made.related, made.related.below has.1, fun plain => ?_⟩
    have plain := plain.of_grows s made.related has.1
    exact Leaves.post (inside_unionOf s hxs has.1
      (List.forall_mem_cons.2 ⟨has.2 plain, List.forall_mem_singleton.2 (hbs.2 plain)⟩))
  narrow negated hask s _ ha htest has := by
    have made : Leaves Runs _ (narrowByTest _ _ _) _ := safe_narrowByTest s ha htest negated
    refine ⟨made.sound, made.related, made.related.below has.1, fun plain => ?_⟩
    have inside := has.2 (plain.of_grows s made.related has.1)
    exact Leaves.post (inside_narrowByTest s has.1 ha inside htest
      (Test.ne_of_not_asksType (Bool.eq_false_iff.2 hask)))
  declared h := h.elim
  assigned h := h.elim

/-! ### Tame parts -/

/-- What may stand in a part of a program in which a variable is followed from a point on.  It
is not asked for its type and its declarations do not clash.  If the part assigns to it or
declares its name again, the part starts from the declared type. -/
structure Tame (x : String) (P : Point) (has : Pattern → Bool) (declared : Prop) : Prop where
  asks : has (.asks x) = false
  clashes : has (ScopePattern.clashes x).pattern = false
  changes : has (.assigns x) = true ∨ has (.declares x) = true → declared ∧
    has (ScopePattern.covers x).pattern = false ∧
    (has ScopePattern.functions.pattern = true → P.Steady)

variable {x : String} {P Q : Point} {has : Pattern → Bool} {declared : Prop} {C : TypeId}

theorem Tame.of_column (h : Tame x P has declared) (same : Q.column = P.column) :
    Tame x Q has declared :=
  ⟨h.asks, h.clashes, fun changes =>
    have ⟨hd, covers, functions⟩ := h.changes changes
    ⟨hd, covers, fun hf => (functions hf).of_column same⟩⟩

/-- A variable that is not changed may be followed from any type. -/
theorem Tame.below (h : Tame x P has declared)
    (hx : ¬(has (.assigns x) = true ∨ has (.declares x) = true)) {p : Pattern}
    (hp : Q.Forbids x (.below C) p) : has p = false := by
  cases hp with
  | scope hp =>
    cases hp with
    | clashes => exact h.clashes
    | covers strict => exact strict.2.1.elim
    | functions strict => exact strict.2.1.elim
  | declares => exact Bool.eq_false_iff.2 fun e => hx (.inr e)
  | asks => exact h.asks
  | assigns => exact Bool.eq_false_iff.2 fun e => hx (.inl e)

/-- A variable that is changed may be followed from its declared type. -/
theorem Tame.refined (h : Tame x P has declared)
    (hx : has (.assigns x) = true ∨ has (.declares x) = true) (same : Q.column = P.column)
    (fixed : Q.fixed = none) {p : Pattern} (hp : Q.Forbids x (.refined False) p) :
    has p = false := by
  obtain ⟨-, covers, functions⟩ := h.changes hx
  cases hp with
  | scope hp =>
    cases hp with
    | clashes => exact h.clashes
    | covers => exact covers
    | functions _ unsteady =>
      exact Bool.eq_false_iff.2 fun e => unsteady ((functions e).of_column same)
  | declares hR => exact absurd trivial hR
  | asks => exact h.asks
  | assigns hP => exact absurd trivial (hP.resolve_left fun e => by simp [fixed] at e)

/-- A region for a part of a program that starts from a type and stays inside it. -/
structure Region.Covers (R : Region) (x : String) (P : Point) (has : Pattern → Bool)
    (b : LocalVariable) (C : TypeId) (t : TypeTable) : Prop where
  tracked : R.tracked
  unasked : ¬R.askable
  start : R.Has b.declared t C
  allows : ∀ Q : Point, Q.column = P.column → Q.fixed = none → ∀ p, Q.Forbids x R p →
    has p = false
  inside : ∀ {t' : TypeTable} {e : TypeId}, R.Has b.declared t' e → t'.Plain C → t'.Inside C e

/-- **A tame part keeps a variable inside the type that it starts from.** -/
theorem Tame.region (h : Tame x P has declared)
    (hC : t.Has C) (hd : declared → b.declared = C) : ∃ R : Region, R.Covers x P has b C t := by
  by_cases hx : has (.assigns x) = true ∨ has (.declares x) = true
  · obtain rfl := hd (h.changes hx).1
    exact ⟨.refined False, trivial, id, ⟨.declared, fun _ plain => plain.inside⟩,
      fun _ same fixed _ => h.refined hx same fixed, fun has => has.2 id⟩
  · exact ⟨.below C, trivial, id, ⟨hC, fun plain => plain.inside⟩, fun _ _ _ _ => h.below hx,
      fun has => has.2⟩

/-- The point of a state, in the region. -/
theorem Region.Covers.atState {R : Region}
    (h : R.Covers x P has b C t) (ordered : s.env.Ordered) (bound : s.binding? x = some b)
    (hC : s.env.get? x = some C) : (Point.ofState s x).At x R s t := by
  refine ⟨rfl, fun _ => rfl, ⟨fun _ => ordered, fun _ type htype => ?_⟩, fun _ e => nomatch e⟩
  obtain rfl : C = type := Option.some.inj (hC.symm.trans htype)
  exact ⟨b, Point.bound_ofState.trans bound, h.start⟩

/-- Where the part ends the variable has a subtype of the type at its start. -/
theorem Region.Covers.isSubtype {R : Region} {t1 t2 : TypeTable}
    {e : TypeId} (h : R.Covers x P has b C t) (st : Stands s t1)
    (inside : InRegion x R (some b) t1 s.env) (hb : t1.Has b.declared)
    (hC : t1.Has C) (he : s.env.get? x = some e) (later : t1.Continues t2)
    (sound : t2.Sound) (rest : t2.evaluating = []) (plain : t2.Plain C)
    (untripped : (GradualTyping.isSubtype e C t2).2.Untripped) :
    (GradualTyping.isSubtype e C t2).1 = true := by
  obtain ⟨b', hb', has⟩ := inside.has h.tracked e he
  cases hb'
  have hbelow : t1.Has e := TypeEnv.below_get? st.below.env x e he
  exact (h.inside (R.later st.sound later hb hbelow has) plain).isSubtype sound rest plain
    (later.below hC) (later.below hbelow) untripped

/-- The point of a state where nothing is known of the type. -/
theorem Point.atState (ordered : s.env.Ordered)
    (bound : s.binding? x = some b) (t : TypeTable) : (Point.ofState s x).At x (.whole True) s t :=
  ⟨rfl, fun _ => rfl,
    ⟨fun _ => ordered, fun _ _ _ => ⟨b, Point.bound_ofState.trans bound, trivial⟩⟩,
    fun _ e => nomatch e⟩

end GradualTyping
