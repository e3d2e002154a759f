/-
# Recursions without a guard

Two kinds of recursion on a table pass no recursion guard.

The steps of an intersection make intersections of smaller measure in turn
(`matches_intersectStep`), so that their nesting is bounded and what would be called below
the bound never is (`Reachable.intersectionOf_terminates`).

A descent into the members of a type evaluates each member before it descends into it.
Whether it comes back is a matter of the chains of questions that are asked on the way
(`Descent.returns_iff_acc`): more levels never change an answer (`Descent.within_le`), and a
question has finitely many below it.  To a normal form a descent comes back
(`Regular.acc_of_normal`), as members stand before their unions.  But evaluation leaves an
alias as it is inside its own body, and a union with its own name among its members is then
asked for itself, without end (`Regular.never_returns`).
-/

import Mathlib.Data.List.Induction
import Mathlib.Order.WellFounded
import GradualTyping.Proofs.NormalForms.Evaluation

namespace GradualTyping

open TypeTable List Operations

variable {t : TypeTable} {id : TypeId}

/-! ### Intersections -/

/-- A step of an intersection does the same whether the intersections that it makes in turn are
made at once or in a bounded number of steps. -/
theorem TypeTable.Sound.intersectStep_intersectionOf (s : t.Sound) {ms : List TypeId}
    (hms : t.Has ms) (bottom : List TypeId → TableM TypeId) :
    intersectStep intersectionOf ms t =
      intersectStep (intersectStep^[3 * t.size + ms.length] bottom) ms t := by
  refine (matches_intersectStep s (s.measured hms) fun {e c ms' t'} s' r' h' hle hlt => ?_).2
  -- of the two bounds on the unions to distribute over, the smaller one is below both numbers of
  -- steps
  have fewer : t'.Measured e (min c ms'.length) ms' := by
    rcases Nat.le_total c ms'.length with hc | hc
    · rwa [Nat.min_eq_left hc]
    · rw [Nat.min_eq_right hc]
      exact ⟨h'.below, h'.nested, s'.distributes ms'⟩
  have hsize := r'.size_le
  have hlen := Nat.min_le_right c ms'.length
  have enough := s'.steps_lt ms'.length (Nat.le_refl _)
  have same := matches_intersectSteps (fun _ => pure .never) bottom
    (Nat.lt_of_le_of_lt (by omega) enough) (Nat.lt_of_le_of_lt (by omega) hlt) s' fewer
  rw [← intersectWithin_eq] at same
  exact ⟨Tabled.Keeps.read rfl same.1, same.2⟩

/-- **Intersections terminate.**  The recursion of `intersectStep` is solved by `intersectionOf`,
and its calls are nested less deep than three times the size of the table and the length of the
list: what would be called below may do anything, and is never called. -/
theorem TypeTable.Reachable.intersectionOf_terminates (h : t.Reachable) {ms : List TypeId}
    (hms : Below t.size ms) :
    (∀ fuel, 3 * t.size + ms.length < fuel → ∀ bottom,
      intersectStep^[fuel] bottom ms t = intersectionOf ms t) ∧
    intersectStep intersectionOf ms t = intersectionOf ms t := by
  have s := h.sound
  have bounded : ∀ fuel, 3 * t.size + ms.length < fuel → ∀ bottom,
      intersectStep^[fuel] bottom ms t = intersectionOf ms t := fun fuel hfuel bottom => by
    have same := (matches_intersectSteps bottom (fun _ => pure .never) hfuel
      (s.steps_lt ms.length (Nat.le_refl t.size)) s (s.measured hms)).2
    rwa [← intersectWithin_eq] at same
  refine ⟨bounded, ?_⟩
  rw [s.intersectStep_intersectionOf hms fun _ => pure .never,
    ← bounded (3 * t.size + ms.length + 1) (Nat.lt_succ_self _) fun _ => pure .never,
    Function.iterate_succ_apply']

/-- The intersection of `{ x: string }` and `{ x: number }`, of which the fields are intersected
in turn. -/
theorem intersectionOf_terminates_objects :
    let a := objectOf [{ name := "x", type := .string }] none (withLimits {})
    let b := objectOf [{ name := "x", type := .number }] none a.2
    b.2.Reachable ∧ Below b.2.size [a.1, b.1] ∧
      (∀ fuel, 3 * b.2.size + 2 < fuel → ∀ bottom,
        intersectStep^[fuel] bottom [a.1, b.1] b.2 = intersectionOf [a.1, b.1] b.2) ∧
      intersectStep intersectionOf [a.1, b.1] b.2 = intersectionOf [a.1, b.1] b.2 := by
  intro a b
  have hstring : Below (withLimits {}).size [({ name := "x", type := .string } : Property)] :=
    below_singleton.2 ((sound_withLimits {}).below_fixed rfl)
  have first := (Reachable.start {}).step (.object _ none) ⟨hstring, below_none⟩
  have second : b.2.Reachable := first.step (.object [{ name := "x", type := .number }] none)
    ⟨below_singleton.2 (first.sound.below_fixed rfl), below_none⟩
  have below : a.1.index < b.2.size ∧ b.1.index < b.2.size := by
    subst b a
    cbv
  have below : Below b.2.size [a.1, b.1] :=
    below_pair.2 ⟨below.1, below.2⟩
  exact ⟨second, below, second.intersectionOf_terminates below⟩

/-! ### Descents -/

namespace Reduction

variable {α β : Type} {t' : TypeTable}

/-- What follows an operation that may have no answer is run if there is one. -/
theorem run_bind_iff {c : OptionT TableM α} {f : α → OptionT TableM β}
    {b : β} : (c >>= f).run t = (some b, t') ↔
      ∃ a t1, c.run t = (some a, t1) ∧ (f a).run t1 = (some b, t') := by
  rw [OptionT.run_bind]
  constructor
  · intro h
    obtain ⟨o, t1, ho, hrest⟩ := bind_ends h
    cases o with
    | none => cases hrest
    | some a => exact ⟨a, t1, ho, hrest⟩
  · rintro ⟨a, t1, ha, hb⟩
    exact (bind_of_eq ha).trans hb

theorem run_mapM_cons_iff {f : α → OptionT TableM β} {x : α} {xs : List α}
    {bs : List β} : ((x :: xs).mapM f).run t = (some bs, t') ↔
      ∃ b bs' t1, bs = b :: bs' ∧ (f x).run t = (some b, t1) ∧
        (xs.mapM f).run t1 = (some bs', t') := by
  rw [mapM_cons, run_bind_iff]
  constructor
  · rintro ⟨b, t1, hb, hrest⟩
    obtain ⟨bs', t2, hbs, hpure⟩ := run_bind_iff.1 hrest
    cases hpure
    exact ⟨b, bs', t1, rfl, hb, hbs⟩
  · rintro ⟨b, bs', t1, rfl, hb, hbs⟩
    exact ⟨b, t1, hb, run_bind_iff.2 ⟨bs', t', hbs, rfl⟩⟩

theorem run_mapM_append_iff {f : α → OptionT TableM β} {xs ys : List α}
    {bs : List β} : ((xs ++ ys).mapM f).run t = (some bs, t') ↔
      ∃ bs1 bs2 t1, bs = bs1 ++ bs2 ∧ (xs.mapM f).run t = (some bs1, t1) ∧
        (ys.mapM f).run t1 = (some bs2, t') := by
  rw [mapM_append, run_bind_iff]
  constructor
  · rintro ⟨bs1, t1, h1, hrest⟩
    obtain ⟨bs2, t2, h2, hpure⟩ := run_bind_iff.1 hrest
    cases hpure
    exact ⟨bs1, bs2, t1, rfl, h1, h2⟩
  · rintro ⟨bs1, bs2, t1, rfl, h1, h2⟩
    exact ⟨bs1, t1, h1, run_bind_iff.2 ⟨bs2, t', h2, rfl⟩⟩

namespace Descent

variable {α : Type} {d : Descent α} {ops : Operations} {fuel fuel' : Nat} {t' : TypeTable} {a : α}

/-- The run of a descent: evaluation, the parts, the answer. -/
theorem within_succ_iff : (d.within ops (fuel + 1) id).run t = (some a, t') ↔
    let e := ops.evaluate id t
    ∃ answers t1, ((d.parts (e.2.resolve e.1)).mapM (d.within ops fuel)).run e.2 =
      (some answers, t1) ∧ d.answer e.1 (e.2.resolve e.1) answers t1 = (a, t') := by
  rw [within, run_bind_iff]
  constructor
  · rintro ⟨e, t1, he, hrest⟩
    obtain ⟨node, t2, hnode, hrest⟩ := run_bind_iff.1 hrest
    obtain ⟨answers, t3, hparts, hanswer⟩ := run_bind_iff.1 hrest
    cases he
    cases hnode
    cases hanswer
    exact ⟨answers, t3, hparts, rfl⟩
  · rintro ⟨answers, t1, hparts, hanswer⟩
    refine ⟨_, _, rfl, run_bind_iff.2 ⟨_, _, rfl, run_bind_iff.2 ⟨answers, t1, hparts, ?_⟩⟩⟩
    exact congrArg (fun r : α × TypeTable => (some r.1, r.2)) hanswer

/-- **More levels change no answer.** -/
theorem within_le (hle : fuel ≤ fuel') (h : (d.within ops fuel id).run t = (some a, t')) :
    (d.within ops fuel' id).run t = (some a, t') := by
  induction fuel generalizing fuel' id t t' a with
  | zero => cases h
  | succ fuel ih =>
    obtain ⟨k, rfl⟩ : ∃ k, fuel' = k + 1 := ⟨fuel' - 1, by omega⟩
    obtain ⟨answers, t1, hparts, hanswer⟩ := within_succ_iff.1 h
    exact within_succ_iff.2 ⟨answers, t1, mapM_le (ih (by omega)) hparts, hanswer⟩
where
  mapM_le {f g : TypeId → OptionT TableM α}
      (h : ∀ {id t t' a}, (f id).run t = (some a, t') → (g id).run t = (some a, t'))
      {xs : List TypeId} {t t' : TypeTable} {as : List α} (hf : (xs.mapM f).run t = (some as, t')) :
      (xs.mapM g).run t = (some as, t') := by
    induction xs generalizing t as with
    | nil => exact hf
    | cons x xs ih =>
      obtain ⟨b, bs, t1, rfl, hx, hxs⟩ := run_mapM_cons_iff.1 hf
      exact run_mapM_cons_iff.2 ⟨b, bs, t1, rfl, h hx, ih hxs⟩

theorem parts_le (hle : fuel ≤ fuel') {xs : List TypeId} {as : List α}
    (h : (xs.mapM (d.within ops fuel)).run t = (some as, t')) :
    (xs.mapM (d.within ops fuel')).run t = (some as, t') :=
  within_le.mapM_le (within_le hle) h

/-- A question about a type on a table, asked on the way of another one: the parts before it have
been asked, and have answered. -/
def Asks (d : Descent α) (ops : Operations) (p q : TypeId × TypeTable) : Prop :=
  let e := ops.evaluate p.1 p.2
  ∃ before after fuel answers, d.parts (e.2.resolve e.1) = before ++ q.1 :: after ∧
    (before.mapM (d.within ops fuel)).run e.2 = (some answers, q.2)

/-- **A descent comes back exactly if the questions on its way are well-founded.** -/
theorem returns_iff_acc : (∃ fuel a t', (d.within ops fuel id).run t = (some a, t')) ↔
    Acc (fun q p => d.Asks ops p q) (id, t) := by
  constructor
  · rintro ⟨fuel, a, t', h⟩
    induction fuel generalizing id t t' a with
    | zero => cases h
    | succ fuel ih =>
      obtain ⟨answers, t1, hparts, -⟩ := within_succ_iff.1 h
      refine .intro _ fun ⟨m, t2⟩ ⟨before, after, k, as, hsplit, hbefore⟩ => ?_
      rw [hsplit, run_mapM_append_iff] at hparts
      obtain ⟨bs, _, t3, -, hbefore', hrest⟩ := hparts
      obtain ⟨b, _, t4, -, hm, -⟩ := run_mapM_cons_iff.1 hrest
      -- the parts before it leave the same table, however many levels they were given
      have same := (parts_le (Nat.le_max_left k fuel) hbefore).symm.trans
        (parts_le (Nat.le_max_right k fuel) hbefore')
      cases same
      exact ih _ _ hm
  · intro h
    generalize hp : (id, t) = p at h
    induction h generalizing id t with
    | intro p _ ih =>
      subst hp
      have parts : ∀ before after, d.parts ((ops.evaluate id t).2.resolve (ops.evaluate id t).1) =
          before ++ after → ∃ fuel answers t1,
            (before.mapM (d.within ops fuel)).run (ops.evaluate id t).2 = (some answers, t1) := by
        intro before
        induction before using List.reverseRecOn with
        | nil => exact fun _ _ => ⟨0, [], _, rfl⟩
        | append_singleton before m before_returns =>
          intro after hsplit
          rw [append_assoc] at hsplit
          obtain ⟨k, as, t2, hbefore⟩ := before_returns _ hsplit
          obtain ⟨k', a, t3, hm⟩ := ih (m, t2) ⟨before, after, k, as, hsplit, hbefore⟩ rfl
          refine ⟨max k k', as ++ [a], t3, run_mapM_append_iff.2 ⟨as, [a], t2, rfl,
            parts_le (Nat.le_max_left k k') hbefore, ?_⟩⟩
          exact run_mapM_cons_iff.2 ⟨a, [], t3, rfl, within_le (Nat.le_max_right k k') hm, rfl⟩
      obtain ⟨fuel, answers, t1, hparts⟩ := parts _ [] (append_nil _).symm
      exact ⟨fuel + 1, _, _, within_succ_iff.2 ⟨answers, t1, hparts, rfl⟩⟩

/-! ### Where descents come back -/

/-- A descent into members of unions and intersections whose answers are safe. -/
structure Regular [Bounded α] (d : Descent α) : Prop where
  parts {node : Ty} {part : TypeId} : part ∈ d.parts node →
    ∃ ms, (node = .union ms ∨ node = .intersection ms) ∧ part ∈ ms
  answer {t : TypeTable} {evaluated : TypeId} {node : Ty} {answers : List α} : t.Sound →
    Below t.size evaluated → Below t.size node → Below t.size answers →
    Safe t (d.answer evaluated node answers)

section Regular

variable [Bounded α] (hd : d.Regular)

include hd

theorem Regular.below {n : Nat} {node : Ty} (h : Below n node) : Below n (d.parts node) := by
  intro part hpart
  obtain ⟨ms, rfl | rfl, hms⟩ := hd.parts hpart
  · exact h part hms
  · exact h part hms

theorem Regular.safe {n fuel : Nat} (s : t.Sound) (hid : t.Has id) :
    Safe t (d.within (.withLevels n) fuel id) :=
  RepeatsAs.safe (repeats_within (safe_withLevels n).repeats hd.below
    (fun s he hn ha => .of_safe (hd.answer s he hn ha)) s hid)

/-- A question asked on the way is about a part of the result, on a later table. -/
theorem Regular.part (n : Nat) {q : TypeId × TypeTable} (s : t.Sound) (hid : t.Has id)
    (h : d.Asks (.withLevels n) (id, t) q) :
    let e := (withLevels n).evaluate id t
    e.2.Sound ∧ t.Runs e.2 ∧ q.1 ∈ d.parts (e.2.resolve e.1) ∧ q.2.Sound ∧ e.2.Runs q.2 := by
  obtain ⟨before, after, fuel, answers, hsplit, hbefore⟩ := h
  have first : Leaves Runs t ((withLevels n).evaluate id) _ :=
    (safe_withLevels n).evaluate s hid
  have hbelow : Below _ (before ++ q.1 :: after) := hsplit ▸ hd.below (first.sound.below_node rfl)
  have safe : Leaves Runs _ (before.mapM (d.within (.withLevels n) fuel)).run _ :=
    Tabled.Keeps.mapM first.sound fun m hm t1 s1 r1 =>
      hd.safe s1 (r1 (hbelow m (mem_append_left _ hm)))
  obtain ⟨s2, r2, -⟩ := safe.ends hbefore
  exact ⟨first.sound, first.related, hsplit ▸ by simp, s2, r2⟩

/-- **To a normal form a descent comes back**: its parts are normal forms that stand before
it. -/
theorem Regular.acc_of_normal (n : Nat) (s : t.Sound) (f : t.Faithful) (hid : t.Has id)
    (hnormal : ((withLevels n).evaluate id t).2.Normal
      ((withLevels n).evaluate id t).1) :
    Acc (fun q p => d.Asks (.withLevels n) p q) (id, t) := by
  generalize hk : ((withLevels n).evaluate id t).1.index = k
  induction k using Nat.strongRecOn generalizing id t with
  | ind k ih =>
    refine .intro _ fun ⟨m, t2⟩ asks => ?_
    obtain ⟨s1, r1, hm, s2, r2⟩ := hd.part n s hid asks
    obtain ⟨ms, hnode, hmem⟩ := hd.parts hm
    have hbelow := hd.below (s1.below_node rfl) m hm
    have earlier : m.index < k := by
      subst hk
      rcases hnode with hnode | hnode
      · exact s1.earlier (get?_of_resolve hnode nofun) m hmem
      · exact s1.earlier (get?_of_resolve hnode nofun) m hmem
    have normal : t2.Normal m := by
      rcases hnode with hnode | hnode
      · exact (hnormal.of_union hnode m hmem).runs s1 hbelow r2
      · exact (hnormal.of_intersection hnode m hmem).runs s1 hbelow r2
    have f2 : t2.Faithful := f.continues (r1.trans r2).toContinues
    have hm2 := r2 hbelow
    have same := normal.evaluate n s2 f2 hm2
    have safe : Leaves Runs t2 ((withLevels n).evaluate m) _ :=
      (safe_withLevels n).evaluate s2 hm2
    refine ih m.index earlier s2 f2 hm2 ?_ (congrArg TypeId.index same)
    rw [same]
    exact normal.runs s2 hm2 safe.related

/-- **A type that is among the parts of its own result is asked for without end.** -/
theorem Regular.never_returns (n : Nat) (s : t.Sound) (hid : t.Has id)
    (remembered : ((withLevels n).evaluate id t).2.evaluated[id]? =
      some ((withLevels n).evaluate id t).1)
    (hpart : id ∈ d.parts (((withLevels n).evaluate id t).2.resolve
      ((withLevels n).evaluate id t).1)) :
    ¬ ∃ fuel a t', (d.within (.withLevels n) fuel id).run t = (some a, t') := by
  rintro ⟨fuel, a, t', h⟩
  induction fuel generalizing t t' a with
  | zero => cases h
  | succ fuel ih =>
    obtain ⟨answers, t1, hparts, -⟩ := within_succ_iff.1 h
    obtain ⟨before, after, hsplit⟩ := append_of_mem hpart
    rw [hsplit, run_mapM_append_iff] at hparts
    obtain ⟨bs, _, t2, -, hbefore, hrest⟩ := hparts
    obtain ⟨b, _, t3, -, hagain, -⟩ := run_mapM_cons_iff.1 hrest
    obtain ⟨s1, r1, -, s2, r2⟩ :=
      hd.part n s hid (q := (id, t2)) ⟨before, after, fuel, bs, hsplit, hbefore⟩
    -- the next time the result is remembered
    generalize (withLevels n).evaluate id t = e at remembered hpart s1 r1 r2
    have again : (withLevels n).evaluate id t2 = (e.1, t2) := by
      cases n <;> exact step_of_remembered (r2.remembered remembered)
    refine ih s2 ((r1.trans r2) hid) ?_ ?_ _ _ hagain
    · rw [again]
      exact r2.remembered remembered
    · rw [again]
      exact (r2.resolve (s1.evaluated remembered).1) ▸ hpart

end Regular

theorem regular_naming : naming.Regular where
  parts {node part} h := by
    cases node with
    | union ms => exact ⟨ms, .inl rfl, h⟩
    | intersection ms => exact ⟨ms, .inr rfl, h⟩
    | _ => cases h
  answer s _ _ _ := by
    dsimp only [naming]
    split <;> exact .pure s (fun _ _ => trivial)

theorem union_of_mem_alternatives {node : Ty} {part : TypeId} (h : part ∈ node.alternatives) :
    ∃ ms, (node = .union ms ∨ node = .intersection ms) ∧ part ∈ ms := by
  cases node with
  | union ms => exact ⟨ms, .inl rfl, h⟩
  | _ => cases h

theorem regular_modifying {readonly optional : Option Bool} :
    (modifying readonly optional).Regular where
  parts := union_of_mem_alternatives
  answer s he hnode ha := safe_modifying s he hnode ha

theorem regular_taking (kind : CallKind) (part : SignaturePart) : (taking kind part).Regular where
  parts := union_of_mem_alternatives
  answer s _ hnode ha := safe_taking kind part s hnode ha

/-! ### What decides whether a question is answered -/

/-- The question is answered, and its answer does not depend on how deep questions may be
nested. -/
def Returns (d : Descent α) (id : TypeId) (t : TypeTable) : Prop :=
  ∃ fuel a t', ∀ limit ≥ fuel, (d.within t.operations limit id).run t = (some a, t')

/-- The question leads to another one, and so on without end. -/
def Endless (d : Descent α) (id : TypeId) (t : TypeTable) : Prop :=
  ∃ f : Nat → TypeId × TypeTable, f 0 = (id, t) ∧ ∀ n, d.Asks t.operations (f n) (f (n + 1))

/-- What is known of a question about a type from the result of its evaluation. -/
structure Decided (d : Descent α) (id : TypeId) (t : TypeTable) : Prop where
  returns_iff : d.Returns id t ↔ ¬ d.Endless id t
  of_normal : (evaluate id t).2.Normal (evaluate id t).1 → d.Returns id t
  /-- A type that is a part of its own result is asked for again and again. -/
  endless : (evaluate id t).2.Untripped →
    id ∈ d.parts ((evaluate id t).2.resolve (evaluate id t).1) → d.Endless id t

theorem returns_iff : d.Returns id t ↔ Acc (fun q p => d.Asks t.operations p q) (id, t) := by
  rw [← returns_iff_acc]
  constructor
  · rintro ⟨fuel, a, t', h⟩
    exact ⟨fuel, a, t', h fuel (Nat.le_refl _)⟩
  · rintro ⟨fuel, a, t', h⟩
    exact ⟨fuel, a, t', fun limit hle => within_le hle h⟩

theorem endless_iff : d.Endless id t ↔ ¬ Acc (fun q p => d.Asks t.operations p q) (id, t) := by
  rw [not_acc_iff_exists_descending_chain]
  rfl

/-- An evaluated type that is among the parts of its result is remembered. -/
theorem Regular.remembered [Bounded α] (hd : d.Regular) (h : t.Reachable)
    (hu : (evaluate id t).2.Untripped)
    (hpart : id ∈ d.parts ((evaluate id t).2.resolve (evaluate id t).1)) :
    (evaluate id t).2.evaluated[id]? = some (evaluate id t).1 := by
  cases hmiss : t.evaluated[id]? with
  | some v =>
    rw [evaluate_of_remembered hmiss]
    exact hmiss
  | none =>
    cases hneeds : needsEvaluation t id with
    | true => exact (evaluate_of_new hmiss hneeds h.quiescent.evaluating hu).2
    | false =>
      -- nothing stands among its own members
      rw [evaluate_of_plain hmiss hneeds] at hpart
      obtain ⟨ms, hnode | hnode, hmem⟩ := hd.parts hpart
      · exact absurd (h.sound.earlier (get?_of_resolve hnode nofun) id hmem) (Nat.lt_irrefl _)
      · exact absurd (h.sound.earlier (get?_of_resolve hnode nofun) id hmem) (Nat.lt_irrefl _)

theorem Regular.decided [Bounded α] (hd : d.Regular) (h : t.Reachable) (hid : t.Has id) :
    d.Decided id t where
  returns_iff := by rw [Descent.returns_iff, endless_iff, not_not]
  of_normal hnormal := Descent.returns_iff.2 (hd.acc_of_normal _ h.sound h.stored hid hnormal)
  endless hu hpart := endless_iff.2 fun hacc =>
    hd.never_returns _ h.sound hid (hd.remembered h hu hpart) hpart (returns_iff_acc.2 hacc)

end Descent

end Reduction

open Reduction

/-- **What decides whether the names of the properties of a type, its fields with other modifiers
and a part of its signatures are found.**  They are exactly if no endless chain of types is asked
for.  There is none if the type evaluates to a normal form, and there is one if the type is a
member of its own result. -/
theorem TypeTable.Reachable.descents_decided (h : t.Reachable) (hid : Below t.size id) :
    naming.Decided id t ∧
      (∀ readonly optional, (modifying readonly optional).Decided id t) ∧
      ∀ kind part, (taking kind part).Decided id t :=
  ⟨Descent.regular_naming.decided h hid, fun _ _ => Descent.regular_modifying.decided h hid,
    fun _ _ => (Descent.regular_taking _ _).decided h hid⟩

/-- With `A` for `{ x: number }`, a descent from `A` comes to the object and back. -/
theorem descents_decided_alias :
    let a := declareAlias "A" [] (withLimits {})
    let o := objectOf [{ name := "x", type := .number }] none a.2
    let d := (defineAlias "A" o.1).run o.2
    d.2.Reachable ∧ Below d.2.size a.1 ∧ naming.Returns a.1 d.2 ∧
      (∀ readonly optional, (modifying readonly optional).Returns a.1 d.2) ∧
      ∀ kind part, (taking kind part).Returns a.1 d.2 := by
  intro a o d
  have known : a.1.index < d.2.size ∧
      ((evaluate a.1 d.2).2.resolve (evaluate a.1 d.2).1).isHead = true := by
    subst d o a
    cbv
  obtain ⟨hid, head⟩ := known
  obtain ⟨names, modified, taken⟩ := reachable_alias.descents_decided hid
  exact ⟨reachable_alias, hid, names.of_normal (.head head), fun _ _ => (modified _ _).of_normal
    (.head head), fun _ _ => (taken _ _).of_normal (.head head)⟩

/-! ### Recursive unions -/

/-- **A union with a reference to itself is never come to the end of.** -/
theorem recursiveUnion_endless :
    let a := declareAlias "A" [] (withLimits {})
    let o := objectOf [{ name := "x", type := .number }] none a.2
    let u := unionOf [a.1, o.1] o.2
    let d := (defineAlias "A" u.1).run u.2
    d.1 = .ok () ∧ d.2.Reachable ∧ naming.Endless a.1 d.2 ∧
      (∀ readonly optional, (modifying readonly optional).Endless a.1 d.2) ∧
      ∀ kind part, (taking kind part).Endless a.1 d.2 := by
  intro a o u d
  have known : d.1 = .ok () ∧ (a.1.index < o.2.size ∧ o.1.index < o.2.size ∧ u.1.index < u.2.size ∧
      a.1.index < d.2.size) ∧ (evaluate a.1 d.2).2.depthError = none ∧
      (evaluate a.1 d.2).2.resolve (evaluate a.1 d.2).1 = .union [a.1, o.1] := by
    subst d u o a
    cbv
  obtain ⟨ok, ⟨ha, ho, hu, hid⟩, untripped, node⟩ := known
  have declared := (Reachable.start {}).step (.declareAlias "A" []) below_nil
  have object := declared.step (.object [{ name := "x", type := .number }] none)
    ⟨below_singleton.2 (declared.sound.below_fixed rfl), below_none⟩
  have reachable : d.2.Reachable :=
    (object.step (.union [a.1, o.1]) (below_pair.2 ⟨ha, ho⟩)).step
      (.defineAlias "A" u.1) hu
  have endless {α : Type} [Bounded α] {q : Descent α} (hq : q.Regular)
      (hparts : q.parts (.union [a.1, o.1]) = [a.1, o.1]) : q.Endless a.1 d.2 := by
    refine (hq.decided reachable hid).endless untripped ?_
    rw [node, hparts]
    exact .head _
  exact ⟨ok, reachable, endless Descent.regular_naming rfl,
    fun _ _ => endless Descent.regular_modifying rfl,
    fun _ _ => endless (Descent.regular_taking _ _) rfl⟩

end GradualTyping
