/-
# Comparisons that are affirmed

`Affirms final t c` says of a run of `c` on `t` that it holds if it ends on the way
to the table `final`.  The rules follow a comparison: it is affirmed if its clause
is (`affirms_isSubtype`), and a clause is affirmed if the question that it puts
about a side that was replaced is, or the rule that the two nodes select
(`affirms_clause`).  What a side is replaced by can be read off the final table.

What is comparable on the final table is affirmed on the way to it
(`affirms_of_comparable`), and what was affirmed on the way to a table is comparable
there (`Affirmed.comparable`).
-/

import GradualTyping.Proofs.Comparison.Rules

namespace GradualTyping

open TypeTable Subtyping Operations

variable {final : TypeTable} {a b : TypeId}

/-- The run holds, if it ends on the way to `final`. -/
abbrev Affirms (final t : TypeTable) (c : TableM Bool) : Prop :=
  Keeps Runs t c fun t' holds => t'.Precedes final → holds = true

section Affirms

variable {final t t' : TypeTable} {a a' b : TypeId}

theorem Affirms.of_safe {c : TableM Bool} (safe : Safe t c)
    (h : (c t).2.Precedes final → (c t).1 = true) : Affirms final t c := by
  have run : Leaves Runs t c _ := safe
  exact ⟨run.sound, run.related, h⟩

/-- Only runs from tables on the way matter. -/
theorem Affirms.of_precedes {c : TableM Bool} (safe : Safe t c)
    (h : t.Precedes final → Affirms final t c) : Affirms final t c := by
  have run : Leaves Runs t c _ := safe
  refine .of_safe safe fun later => ?_
  exact (h (run.related.precedes later) : Leaves _ _ _ _).post later

theorem Affirms.of_eq {c c' : TableM Bool} (heq : c t = c' t) (h : Affirms final t c') :
    Affirms final t c := by
  obtain ⟨s, r, post⟩ : Leaves _ _ _ _ := h
  rw [← heq] at s r post
  exact ⟨s, r, post⟩

/-- All of several questions. -/
theorem Affirms.allM {α : Type} {xs : List α} {f : α → TableM Bool} (s : t.Sound)
    (h : ∀ x ∈ xs, ∀ t1, t1.Sound → t.Runs t1 → Affirms final t1 (f x)) :
    Affirms final t (xs.allM f) := by
  induction xs generalizing t with
  | nil => exact .pure s fun _ => rfl
  | cons x xs ih =>
    refine (h x (.head _) t s (.refl t)).bind fun t1 holds s1 r1 hholds => ?_
    cases holds with
    | true => exact ih s1 fun y hy t2 s2 r2 => h y (.tail _ hy) t2 s2 (r1.trans r2)
    | false => exact .pure s1 hholds

/-- One of several questions. -/
theorem Affirms.anyM {α : Type} {xs : List α} {f : α → TableM Bool} (s : t.Sound)
    (safe : ∀ x ∈ xs, ∀ t1, t1.Sound → t.Runs t1 → Safe t1 (f x)) {x : α} (hx : x ∈ xs)
    (h : ∀ t1, t1.Sound → t.Runs t1 → Affirms final t1 (f x)) : Affirms final t (xs.anyM f) := by
  induction xs generalizing t with
  | nil => cases hx
  | cons y ys ih =>
    have first : Keeps Runs t (f y) fun t' holds => x = y → t'.Precedes final → holds = true := by
      by_cases hxy : x = y
      · exact (hxy ▸ h t s (.refl t)).mono fun _ _ _ _ h _ => h
      · exact (safe y (.head _) t s (.refl t)).mono fun _ _ _ _ _ h => absurd h hxy
    refine first.bind fun t1 holds s1 r1 hholds => ?_
    cases holds with
    | true => exact .pure s1 fun _ => rfl
    | false =>
      have runs := fun t2 (r2 : t1.Runs t2) => r1.trans r2
      by_cases hxy : x = y
      · refine (Tabled.Keeps.anyM s1 fun z hz t2 s2 r2 => (safe z (.tail _ hz) t2 s2 (runs t2 r2)).ignore).mono
          fun t2 _ _ r2 _ later => ?_
        exact absurd (hholds hxy (r2.precedes later)) Bool.false_ne_true
      · exact ih s1 (fun z hz t2 s2 r2 => safe z (.tail _ hz) t2 s2 (runs t2 r2))
          ((List.mem_cons.1 hx).resolve_left hxy) fun t2 s2 r2 => h t2 s2 (runs t2 r2)

end Affirms

/-! ### A comparison and its clause -/

section Comparison

variable {final t t' : TypeTable} {n : Nat} {a a' b : TypeId}

theorem safe_isSubtypeAt (n : Nat) (assumed : Assumptions) :
    SafeAsk ((withLevels n).isSubtype assumed) :=
  fun s ha hb => (safe_withLevels n).isSubtype assumed s ha hb

/-- A comparison is affirmed if it is settled or its clause is. -/
theorem affirms_isSubtype (s : t.Sound) (rest : AtRest n t) (ha : t.Has a)
    (hb : t.Has b) (assumed : Assumptions)
    (h : settled t a b = true ∨ ∀ k, n = k + 1 → Affirms final t.deeper
      (clause (.withLevels k) ((withLevels k).isSubtype ((a, b) :: assumed)) a b)) :
    Affirms final t ((withLevels n).isSubtype assumed a b) := by
  refine .of_safe (safe_isSubtypeAt n assumed s ha hb) fun later => ?_
  obtain ⟨deeper, ask, hstep⟩ : ∃ deeper ask, (withLevels n).isSubtype assumed a b =
      step deeper ask assumed a b := by
    cases n with
    | zero => exact ⟨.inert, _, rfl⟩
    | succ n => exact ⟨.withLevels n, _, rfl⟩
  by_cases holds : settled t a b = true ∨ (a, b) ∈ assumed
  · rw [hstep, step_of_holds holds]
  have hopen := not_or.1 holds
  have hclause := h.resolve_left hopen.1
  -- The guard has not tripped, so the clause runs, and there is a level for it.
  cases n with
  | zero =>
    have run : (withLevels 0).isSubtype assumed a b t =
        guarded false (clause .inert (inert.isSubtype ((a, b) :: assumed)) a b) t :=
      step_of_open (Bool.eq_false_iff.2 hopen.1) hopen.2
    rw [run] at later
    have hdepth := (guarded_of_untripped _ _ later.started).1
    exact absurd rest.levels (Nat.not_le.2 hdepth)
  | succ k =>
    have run : (withLevels (k + 1)).isSubtype assumed a b t = guarded false
        (clause (.withLevels k) ((withLevels k).isSubtype ((a, b) :: assumed)) a b) t :=
      step_of_open (Bool.eq_false_iff.2 hopen.1) hopen.2
    rw [run] at later ⊢
    have pass := (guarded_of_untripped _ _ later.started).2
    rw [pass] at later ⊢
    have body : Leaves Runs t.deeper _ _ := hclause k rfl
    exact body.post (precedes_of_shallower later)

theorem TypeTable.Reduct.precedes (red : t.Reduct a a') (s : t.Sound) (later : t.Precedes final) :
    final.Reduct a a' := by
  have ha : t.Has a :=
    below_of_needsEvaluation (Subtyping.needs_of_needs red.needs)
  exact ⟨((later.agree s).comparedReduced ha).trans red.needs, later.remembered red.remembered,
    red.ne⟩

theorem TypeTable.Stays.precedes (stays : t.Stays a) (s : t.Sound) (ha : t.Has a)
    (later : t.Precedes final) : final.Stays a :=
  stays.imp ((later.agree s).comparedReduced ha).trans later.remembered

theorem TypeTable.Unvaried.of_precedes (unvaried : final.Unvaried) (s : t.Sound)
    (later : t.Precedes final) : t.Unvaried := by
  intro name definition hdef hne
  have peers : Peers t final := ⟨later.agree s, later.aliases⟩
  rw [← peers.variances? (s.aliases hdef).1]
  refine unvaried name definition ?_ hne
  rw [alias?, later.aliases]
  exact hdef

theorem TypeTable.Unvaried.runs (unvaried : t.Unvaried) (s : t.Sound) (r : t.Runs t') :
    t'.Unvaried := by
  intro name definition hdef hne
  have peers : Peers t t' := ⟨s.agreeBelow r, r.aliases⟩
  rw [alias?, r.aliases] at hdef
  rw [peers.variances? (s.aliases hdef).1]
  exact unvaried name definition hdef hne

/-- What a side is found to be, it is on the final table. -/
theorem keeps_reduced? (final : TypeTable) (s : t.Sound) (rest : AtRest n t) (ha : t.Has a) :
    Keeps Runs t (reduced? (.withLevels n) a) fun t' r => t'.Has r ∧
      (t'.Precedes final → (∃ a', r = some a' ∧ final.Reduct a a') ∨ r = none ∧ final.Stays a) := by
  have run : Leaves Runs t (reduced? (.withLevels n) a) _ :=
    safe_reduced? (safe_withLevels n) s ha
  refine ⟨run.sound, run.related, run.post, fun later => ?_⟩
  refine (reduced?_run s rest.evaluating ha later.started).imp
    (fun ⟨a', hr, red⟩ => ⟨a', hr, red.precedes run.sound later⟩) fun ⟨hr, stays⟩ => ?_
  exact ⟨hr, stays.precedes run.sound (run.related.below ha) later⟩

/-- A clause is affirmed if the question about a side that was replaced is, or the rule that the
two nodes select.  What replaces a side is what replaces it on the final table. -/
theorem affirms_clause (s : t.Sound) (rest : AtRest n t) (unvaried : final.Unvaried)
    (ha : t.Has a) (hb : t.Has b) (hab : a ≠ b) {ask : Ask TableM} (safe : SafeAsk ask)
    (source : ∀ a' t1, final.Reduct a a' → t1.Sound → t.Runs t1 → t1.Has a' →
      Affirms final t1 (ask a' b))
    (target : ∀ b' t1, final.Stays a → final.Reduct b b' → t1.Sound → t.Runs t1 →
      t1.Has b' → Affirms final t1 (ask a b'))
    (rule : ∀ t1, final.Stays a → final.Stays b → t1.Sound → t.Runs t1 →
      Affirms final t1 (structural (.withLevels n) ask a b (t.resolve a) (t.resolve b))) :
    Affirms final t (clause (.withLevels n) ask a b) := by
  have safeOps := safe_withLevels n
  have whole : Safe t (clause (.withLevels n) ask a b) :=
    (tandem_safe safeOps safe).clause s ha hb fun _ _ _ _ => trivial
  refine .of_precedes whole fun start => ?_
  refine .of_eq (clause_of_undecided
    (undecided_of_unvaried s (unvaried.of_precedes s start) hab ask)) ?_
  refine (keeps_reduced? final s rest ha).bind fun t1 r s1 r1 ⟨hr, found⟩ => ?_
  cases r with
  | some a' =>
    refine Affirms.of_precedes (safe s1 (below_some.1 hr) (r1 hb)) fun later => ?_
    rcases found later with ⟨_, hsome, red⟩ | ⟨hnone, -⟩
    · obtain rfl := Option.some.inj hsome
      exact source a' t1 red s1 r1 (below_some.1 hr)
    · cases hnone
  | none =>
    refine (keeps_reduced? final s1 (rest.runs r1) (r1 hb)).bind fun t2 r' s2 r2 ⟨hr', found'⟩ => ?_
    have r12 := r1.trans r2
    have stays (later : t2.Precedes final) : final.Stays a := by
      rcases found (r2.precedes later) with ⟨_, hsome, -⟩ | ⟨-, stays⟩
      · cases hsome
      · exact stays
    cases r' with
    | some b' =>
      refine Affirms.of_precedes (safe s2 (r12 ha) (below_some.1 hr')) fun later => ?_
      rcases found' later with ⟨_, hsome, red⟩ | ⟨hnone, -⟩
      · obtain rfl := Option.some.inj hsome
        exact target b' t2 (stays later) red s2 r12 (below_some.1 hr')
      · cases hnone
    | none =>
      refine Affirms.of_precedes ((tandem_safe safeOps safe).structural s2 (r12 ha) (r12 hb)
        (r12 (s.below_resolve a)) (r12 (s.below_resolve b)) fun _ _ _ _ => trivial)
        fun later => ?_
      rcases found' later with ⟨_, hsome, -⟩ | ⟨-, stays'⟩
      · cases hsome
      · exact rule t2 (stays later) stays' s2 r12

/-- A member of a union is found, unless the source is taken apart before. -/
theorem affirms_found {m : TypeId} {ms : List TypeId} {ask : Ask TableM} {node : Ty} (s : t.Sound) (ha : t.Has a)
    (hb : t.Has b) (hms : t.Has ms) (hnode : t.Has node) (safe : SafeAsk ask)
    (hunion : node.isUnion = false) (hmeet : ∀ xs, node ≠ .intersection xs) (hm : m ∈ ms)
    (h : ∀ t1, t1.Sound → t.Runs t1 → Affirms final t1 (ask a m)) :
    Affirms final t (structural (.withLevels n) ask a b node (.union ms)) := by
  have found : Affirms final t (ms.anyM (ask a ·)) :=
    .anyM s (fun k hk _ s1 r1 => safe s1 (r1 ha) (r1 (hms k hk))) hm h
  cases node with
  | union => cases hunion
  | intersection xs => exact absurd rfl (hmeet xs)
  | param p =>
    refine Tabled.Keeps.bind found fun t1 holds s1 r1 yes => ?_
    cases holds with
    | true => exact .pure s1 fun _ => rfl
    | false =>
      refine Affirms.of_precedes (safe s1 (r1 (hnode.1.getD s.below_unknown)) (r1 hb))
        fun later => absurd (yes later) Bool.false_ne_true
  | _ => exact found

end Comparison

/-! ### Comparable types are affirmed -/

open Classical in
/-- **Comparison affirms what is comparable** on the table it is on the way to. -/
theorem affirms_of_comparable {t : TypeTable} {n : Nat} (F : final.Resting)
    (h : final.Comparable a b) (s : t.Sound) (rest : AtRest n t) (ha : t.Has a)
    (hb : t.Has b) (assumed : Assumptions) :
    Affirms final t ((withLevels n).isSubtype assumed a b) := by
  induction n generalizing t a b assumed with
  | zero => exact affirms_isSubtype s rest ha hb assumed (.inr fun _ hk => nomatch hk)
  | succ k ih =>
    refine .of_precedes (safe_isSubtypeAt _ assumed s ha hb) fun start =>
      affirms_isSubtype s rest ha hb assumed ?_
    refine (h.closed F).imp (fun hs => settled_congr start.toGrows ha hb ▸ hs) ?_
    rintro ⟨generic, hclause⟩ _ ⟨⟩
    -- The clause has an echo on the final table, where comparable types answer its questions.
    have asks : ∀ {t : TypeTable} {x y : TypeId}, t.Sound → t.Has x → t.Has y →
        Echoes k false final t ((withLevels k).isSubtype ((a, b) :: assumed) x y)
          (pure (decide (final.Comparable x y))) := by
      intro t x y s hx hy rest holds t' he
      obtain ⟨s', r', -⟩ := Leaves.ends (safe_isSubtypeAt k _ s hx hy) he
      refine ⟨s', r', fun later (hxy : decide _ = true) => ?_⟩
      have affirms := Leaves.ends (ih (of_decide_eq_true hxy) s rest hx hy _) he
      exact ⟨affirms.2.2 later, by rw [hxy]; rfl⟩
    have generic : comparesGeneric t a b = false :=
      (comparesGeneric_congr start.toGrows ha hb).symm.trans generic
    have echo := (tandem_echoes (final.limits.maxDepth - final.depth) asks).clause s.deeper ha hb
      fun _ _ hf hg => typeParams_of_not_generic generic hf hg
    obtain ⟨s', r', post⟩ := echo rest.deeper _ _ rfl
    exact ⟨s', r', fun later => (post later (congrArg Prod.fst hclause)).1⟩

/-- Two types were compared on the way to a table, without functions with type parameters, and
the answer was yes. -/
def Affirmed (final : TypeTable) (a b : TypeId) : Prop :=
  ∃ t : TypeTable, t.Sound ∧ t.evaluating = [] ∧ Below t.size a ∧ Below t.size b ∧
    ComparesPlainly t a b ∧ (isSubtype a b t).1 = true ∧ (isSubtype a b t).2.Precedes final

theorem Affirmed.runs {t : TypeTable} (h : Affirmed t a b)
    (r : t.Runs final) (F : final.Resting) : Affirmed final a b := by
  obtain ⟨t0, s, rest, ha, hb, plainly, affirmed, later⟩ := h
  refine ⟨t0, s, rest, ha, hb, plainly, affirmed, later.toGrows.trans r, F.sound,
    r.aliases.trans later.aliases, fun h => r.remembered (later.remembered h), later.started,
    F.untripped⟩

/-- **What was affirmed is comparable.** -/
theorem Affirmed.comparable (F : final.Resting)
    (h : Affirmed final a b) : final.Comparable a b := by
  obtain ⟨t, s, rest, ha, hb, ⟨holds, t', he⟩, affirmed, later⟩ := h
  have run : isSubtype a b t = (holds, t') := (erases_plain _ s [] ha hb holds t' he).1
  rw [run] at affirmed later
  have echo := (echoes_supported F.evaluating _ s [] ha hb (atRest_operations rest) holds t' he).2.2
    later affirmed
  classical exact of_decide_eq_true (congrArg Prod.fst echo.2)

end GradualTyping
