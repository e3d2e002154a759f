/-
# The two edges of a test lose nothing

A test looks at the alternatives of a type one by one.  Each of them is kept on one edge
of the test at least; only `boolean` may be taken apart, into `true` on one edge and
`false` on the other.  So a type adds nothing to the union of what the test leaves of it
on its two edges (`Splits`).

That an alternative is kept is a matter of what one comparison answers, and the two edges
are read at different times.  Both runs are compared on one table, on which all of their
steps answer as they did (`Answers`): there an alternative is kept on the edge of the
failed test because the very same comparison denies it on the other.
-/

import GradualTyping.Proofs.Lockstep.Course
import GradualTyping.Proofs.NormalForms.Fixed
import GradualTyping.Proofs.Comparison.Coinduction
import GradualTyping.Proofs.Narrowing.Members
import GradualTyping.Proofs.UnionLaws

namespace GradualTyping

open TypeTable List Reduction Narrowing

namespace TypeTable

variable {t t' : TypeTable} {type m u : TypeId} {xs ys zs : List TypeId}

/-! ### Still types -/

theorem Still.grows (h : t.Still type) (s : t.Sound) (hid : t.Has type) (g : t.Grows t') :
    t'.Still type := by
  intro m hm
  rw [(s.agreeBelow g).unionMembers hid] at hm
  rw [(s.agreeBelow g).needsEvaluation (s.below_unionMembers hid m hm)]
  exact h m hm

/-- A type of a table is still if it is on a later one. -/
theorem Still.of_grows (h : t'.Still type) (s : t.Sound) (hid : t.Has type)
    (g : t.Grows t') : t.Still type := by
  intro m hm
  rw [← (s.agreeBelow g).needsEvaluation (s.below_unionMembers hid m hm)]
  rw [← (s.agreeBelow g).unionMembers hid] at hm
  exact h m hm

theorem Still.member (h : t.Still type) (s : t.Sound) (hm : m ∈ t.unionMembers type) :
    t.Still m := by
  intro k hk
  rw [s.unionMembers_alternative hm] at hk
  exact mem_singleton.1 hk ▸ h m hm

theorem still_of_plain (h : needsEvaluation t u = false)
    (hunion : (t.resolve u).isUnion = false) : t.Still u := by
  intro m hm
  unfold TypeTable.unionMembers at hm
  split at hm
  · next hu => rw [hu] at hunion; cases hunion
  · cases hm
  · exact mem_singleton.1 hm ▸ h

theorem still_of_isHead (h : (t.resolve u).isHead = true) : t.Still u :=
  still_of_plain (needsEvaluation_of_isHead h) (by
    cases hu : t.resolve u <;> simp_all [Ty.isHead, Ty.isUnion])

theorem Sound.still_fixed (s : t.Sound) {i : Nat} {ty : Ty} (h : TypeTable.fixed[i]? = some ty)
    (hty : ty.isHead = true) : t.Still ⟨i⟩ :=
  still_of_isHead (resolve_of_get? (s.get?_fixed h) ▸ hty)

theorem IsUnion.still (s : t.Sound) (hu : t.IsUnion xs u) (h : ∀ x ∈ xs, t.Still x) :
    t.Still u := by
  intro m hm
  rw [hu.unionMembers s] at hm
  rcases mem_of_mem_canonicalMembers hm with hm | ⟨rfl, -, -⟩
  · obtain ⟨x, hx, hm⟩ := mem_flatMap.1 hm
    exact h x hx m hm
  · exact needsEvaluation_of_isHead (by rw [s.resolve_boolean]; rfl)

/-- One step makes a still type of types that are neither unions nor intersections nor
reducible. -/
theorem MeetStep.still {P : List TypeId → TypeId → Prop} (sF : t'.Sound) (s : t.Sound)
    (g : t.Grows t') (hxs : t.Has xs) (h : ∀ x ∈ xs, (t.resolve x).isHead = true)
    (step : t.MeetStep t' P xs u) : t'.Still u := by
  have flat : ∀ m ∈ t.flattenIntersection xs, (t'.resolve m).isHead = true := by
    intro m hm
    obtain ⟨x, hx, hm⟩ := mem_flatMap.1 hm
    have head := h x hx
    split at hm
    · next hnode => rw [hnode] at head; cases head
    · cases hm
    · rw [mem_singleton.1 hm, g.resolve (hxs x hx)]
      exact head
  refine step.inherits flat (fun _ => still_of_isHead) (sF.still_fixed (i := 2) rfl rfl)
    (sF.still_fixed (i := 0) rfl rfl) (sF.still_fixed (i := 1) rfl rfl) ?_ ?_ ?_
  · intro m _ _ _ hm hnode _ _ _
    have head := flat m hm
    rw [g.resolve (s.below_flattenIntersection hxs m hm), hnode] at head
    cases head
  · intro _ id _ merged
    obtain ⟨shape, hshape⟩ := Merged.shape merged rfl
    rw [hshape]
    rfl
  · intro members hmembers hnode
    refine still_of_plain ?_ (by rw [hnode]; rfl)
    rw [needsEvaluation, hnode]
    refine any_eq_false.2 fun m hm => ?_
    rw [isReducible_of_plain (needsEvaluation_of_isHead (hmembers m hm))]
    exact Bool.false_ne_true

theorem leaves_intersectionOf_still (s : t.Sound) (hxs : t.Has xs)
    (h : ∀ x ∈ xs, (t.resolve x).isHead = true) :
    Keeps Runs t (intersectionOf xs) fun t' v => t'.Still v :=
  (keeps_intersectionOf_step s hxs).mono fun _ _ s' r' hv => hv.2.still s' s r' hxs h

/-! ### Types that add nothing -/

/-- A type that adds nothing to the union of a list. -/
def Absorbed (t : TypeTable) (xs : List TypeId) (type : TypeId) : Prop :=
  t.canonicalMembers (type :: xs) = t.canonicalMembers xs

theorem canonicalMembers_of_mem (h : ∀ x, x ∈ xs ↔ x ∈ ys) :
    t.canonicalMembers xs = t.canonicalMembers ys :=
  canonicalMembers_ext fun m => by simp only [flattenUnion, mem_flatMap, h]

theorem flattenUnion_cons : t.flattenUnion (u :: xs) = t.unionMembers u ++ t.flattenUnion xs :=
  flatMap_cons

theorem Absorbed.of_grows (s : t.Sound) (g : t.Grows t') (hxs : t.Has (type :: xs))
    (h : t'.Absorbed xs type) : t.Absorbed xs type := by
  unfold Absorbed at h ⊢
  rwa [s.canonicalMembers_congr (s.agreeBelow g) hxs,
    s.canonicalMembers_congr (s.agreeBelow g) (below_cons.1 hxs).2] at h

theorem Absorbed.grows (h : t.Absorbed xs type) (s : t.Sound) (g : t.Grows t')
    (hxs : t.Has (type :: xs)) : t'.Absorbed xs type := by
  unfold Absorbed at h ⊢
  rwa [s.canonicalMembers_congr (s.agreeBelow g) hxs,
    s.canonicalMembers_congr (s.agreeBelow g) (below_cons.1 hxs).2]

theorem Sound.flattenUnion_canonicalMembers (s : t.Sound) (xs : List TypeId) :
    t.flattenUnion (t.canonicalMembers xs) = t.canonicalMembers xs := by
  refine flatMap_self fun m hm => ?_
  rcases mem_of_mem_canonicalMembers hm with hm | ⟨rfl, -, -⟩
  · obtain ⟨x, -, hm⟩ := mem_flatMap.1 hm
    exact s.unionMembers_alternative hm
  · rw [TypeTable.unionMembers, s.resolve_boolean]

/-- Lists of one union still have one union with others added. -/
theorem Sound.canonicalMembers_append (s : t.Sound)
    (h : t.canonicalMembers xs = t.canonicalMembers ys) :
    t.canonicalMembers (xs ++ zs) = t.canonicalMembers (ys ++ zs) := by
  have flat : ∀ xs, t.flattenUnion (t.canonicalMembers xs ++ zs) =
      t.canonicalMembers xs ++ t.flattenUnion zs := by
    intro xs
    rw [flattenUnion, flatMap_append]
    exact congrArg (· ++ t.flattenUnion zs) (s.flattenUnion_canonicalMembers xs)
  rw [← s.canonicalMembers_regroup (flat xs), h, s.canonicalMembers_regroup (flat ys)]

/-- `true` and `false` join to `boolean`. -/
theorem Sound.isUnion_booleans (s : t.Sound) : t.IsUnion [.true, .false] .boolean := by
  have flat : t.flattenUnion [.true, .false] = [.true, .false] := by
    refine flatMap_self fun m hm => ?_
    rcases mem_cons.1 hm with rfl | hm
    · rw [TypeTable.unionMembers, s.resolve_true]
    · rw [mem_singleton.1 hm, TypeTable.unionMembers, s.resolve_false]
  refine .inr (.inl (increasing_ext increasing_canonicalMembers (pairwise_singleton ..)
    fun m => ?_))
  have both : Present [TypeId.true, .false] .boolean := .inr ⟨rfl, .head _, .tail _ (.head _)⟩
  rw [s.mem_canonicalMembers (by rw [flat]; decide) (by rw [flat]; decide), flat,
    mem_singleton]
  constructor
  · rintro ⟨⟨hm | ⟨rfl, -⟩, covered⟩, -⟩
    · -- Both literals are covered by the primitive that they join to.
      rcases mem_cons.1 hm with rfl | hm
      · exact absurd both (covered _ s.resolve_true)
      · obtain rfl := mem_singleton.1 hm
        exact absurd both (covered _ s.resolve_false)
    · rfl
  · rintro rfl
    refine Uncovered.kept ⟨.inr ⟨rfl, .head _, .tail _ (.head _)⟩, fun l hl => ?_⟩ ?_
    · rw [s.resolve_boolean] at hl
      cases hl
    · rw [hasShape, s.resolve_boolean]

/-- **Nothing of a type is lost in two unions** if each alternative went into one of them, or is
`boolean` and was taken apart. -/
theorem Sound.absorbed_of_kept (s : t.Sound) {ps ns : List TypeId} {p n : TypeId}
    (hp : t.IsUnion ps p) (hn : t.IsUnion ns n) (h : ∀ m ∈ t.unionMembers type, m ∈ ps ++ ns ∨
      m = .boolean ∧ .true ∈ ps ++ ns ∧ .false ∈ ps ++ ns) : t.Absorbed [p, n] type := by
  have taken : ∀ zs, t.canonicalMembers (p :: n :: zs) = t.canonicalMembers (ps ++ ns ++ zs) := by
    intro zs
    calc t.canonicalMembers (p :: n :: zs)
        = t.canonicalMembers (ps ++ n :: zs) := hp.canonicalMembers_regroup s
      _ = t.canonicalMembers (n :: (ps ++ zs)) := canonicalMembers_of_mem (by simp; grind)
      _ = t.canonicalMembers (ns ++ (ps ++ zs)) := hn.canonicalMembers_regroup s
      _ = t.canonicalMembers (ps ++ ns ++ zs) := canonicalMembers_of_mem (by simp; grind)
  have own : ∀ m ∈ t.unionMembers type, m ∈ ps ++ ns → m ∈ t.flattenUnion (ps ++ ns) :=
    fun m hm hmem => mem_flatMap.2 ⟨m, hmem, by rw [s.unionMembers_alternative hm]; exact .head _⟩
  have split : ∀ m, m ∈ t.flattenUnion (ps ++ ns ++ [type]) ↔
      m ∈ t.flattenUnion (ps ++ ns) ∨ m ∈ t.unionMembers type := by
    intro m
    simp only [flattenUnion, flatMap_append, mem_append, flatMap_singleton]
  unfold Absorbed
  have last : t.canonicalMembers (type :: [p, n]) = t.canonicalMembers [p, n, type] :=
    canonicalMembers_of_mem (by simp; grind)
  rw [last, taken, taken, append_nil]
  by_cases apart : .boolean ∈ t.unionMembers type ∧ .true ∈ ps ++ ns ∧ .false ∈ ps ++ ns
  · have booleans : t.unionMembers .boolean = [.boolean] := by
      rw [TypeTable.unionMembers, s.resolve_boolean]
    calc t.canonicalMembers (ps ++ ns ++ [type])
        = t.canonicalMembers (.boolean :: (ps ++ ns)) := canonicalMembers_ext fun m => by
          rw [split, flattenUnion_cons, booleans, mem_append, mem_singleton]
          constructor
          · rintro (hm | hm)
            · exact .inr hm
            · exact (h m hm).symm.imp (·.1) (own m hm)
          · rintro (rfl | hm)
            · exact .inr apart.1
            · exact .inl hm
      _ = t.canonicalMembers ([.true, .false] ++ (ps ++ ns)) :=
          s.isUnion_booleans.canonicalMembers_regroup s
      _ = t.canonicalMembers (ps ++ ns) := canonicalMembers_of_mem (by simp; grind)
  · refine canonicalMembers_ext fun m => (split m).trans ⟨fun hm => hm.elim id fun hm => ?_, .inl⟩
    refine own m hm ((h m hm).resolve_right fun both => apart ?_)
    exact ⟨both.1 ▸ hm, both.2⟩

/-! ### What a rule leaves of the alternatives -/

variable {rule : TypeId → TableM (Option TypeId)} {ms kept : List TypeId}

/-- What a rule leaves of some types, by what it answers. -/
structure Chosen (t : TypeTable) (rule : TypeId → TableM (Option TypeId)) (ms kept : List TypeId) :
    Prop where
  below : Below t.size kept
  all : ∀ m ∈ ms, ∃ left, t.Answers (rule m) left ∧ ∀ k, left = some k → k ∈ kept
  only : ∀ k ∈ kept, ∃ m ∈ ms, t.Answers (rule m) (some k)

theorem Answers.runs {α : Type} {c : TableM α} {a : α} (h : t.Answers c a) (r : t.Runs t') :
    t'.Answers c a :=
  fun t'' p => h t'' (r.resumes p)

theorem Chosen.runs (h : t.Chosen rule ms kept) (r : t.Runs t') : t'.Chosen rule ms kept where
  below := r h.below
  all m hm := by
    obtain ⟨left, answers, hleft⟩ := h.all m hm
    exact ⟨left, answers.runs r, hleft⟩
  only k hk := by
    obtain ⟨m, hm, answers⟩ := h.only k hk
    exact ⟨m, hm, answers.runs r⟩

/-- A loop over rules that repeat leaves what they answer. -/
theorem keeps_chosen (s : t.Sound) (rest : t.evaluating = [])
    (h : ∀ m ∈ ms, ∀ t', t'.Sound → t.Runs t' → Repeats True t' (rule m)) :
    Keeps Runs t (ms.filterMapM rule) fun t1 kept => t1.Chosen rule ms kept := by
  induction ms generalizing t with
  | nil => exact .pure s ⟨below_nil, fun _ hm => (nomatch hm), fun _ hk => nomatch hk⟩
  | cons m ms ih =>
    rw [filterMapM_cons]
    refine Tabled.Keeps.bind (Answers.of_repeats (h m (.head _) t s (.refl t)) rest)
      fun t1 left s1 r1 ⟨below, answers⟩ => ?_
    have others := ih s1 (r1.evaluating.trans rest) fun m hm t' s' r' =>
      h m (.tail _ hm) t' s' (r1.trans r')
    cases left with
    | none =>
      refine others.mono fun t2 kept _ r2 chosen => ⟨chosen.below, fun k hk => ?_, fun k hk => ?_⟩
      · rcases mem_cons.1 hk with rfl | hk
        · exact ⟨none, answers.runs r2, fun _ h => nomatch h⟩
        · exact chosen.all k hk
      · obtain ⟨m, hm, answers⟩ := chosen.only k hk
        exact ⟨m, .tail _ hm, answers⟩
    | some k =>
      refine others.bind fun t2 kept s2 r2 chosen => .pure s2 ⟨?_, fun m hm => ?_, fun k hk => ?_⟩
      · exact below_cons.2 ⟨r2 (below_some.1 below), chosen.below⟩
      · rcases mem_cons.1 hm with rfl | hm
        · exact ⟨some k, answers.runs r2, fun _ h => Option.some.inj h ▸ .head _⟩
        · obtain ⟨left, answers, hleft⟩ := chosen.all m hm
          exact ⟨left, answers, fun k hk => .tail _ (hleft k hk)⟩
      · rcases mem_cons.1 hk with rfl | hk
        · exact ⟨m, .head _, answers.runs r2⟩
        · obtain ⟨m, hm, answers⟩ := chosen.only k hk
          exact ⟨m, .tail _ hm, answers⟩

/-- Narrowing a still type makes the union of what the rule leaves of its alternatives. -/
theorem Still.keeps_keepMembers (still : t.Still type) (s : t.Sound) (rest : t.evaluating = [])
    (h : ∀ m ∈ t.unionMembers type, ∀ t', t'.Sound → t.Runs t' → Repeats True t' (rule m)) :
    Keeps Runs t (keepMembers type rule) fun t1 u =>
      ∃ kept, t1.IsUnion kept u ∧ t1.Chosen rule (t.unionMembers type) kept := by
  have whole : Leaves Runs t ((t.unionMembers type).filterMapM rule >>= unionOf) fun t1 u =>
      ∃ kept, t1.IsUnion kept u ∧ t1.Chosen rule (t.unionMembers type) kept := by
    refine Tabled.Keeps.bind (keeps_chosen s rest h) fun t1 kept s1 _ chosen => ?_
    have made : Leaves Runs t1 (unionOf kept) _ := safe_unionOf s1 chosen.below
    exact ⟨made.sound, made.related, kept, s1.isUnion_unionOf chosen.below (.refl _),
      chosen.runs made.related⟩
  obtain ⟨s1, r1, post⟩ := whole
  rw [← s.keepMembers_of_still still rule] at s1 r1 post
  exact ⟨s1, r1, post⟩

theorem Sound.isUnion_congr (s : t.Sound) (hxs : t.Has xs) (hu : t.Has u)
    (g : t.Grows t') : t'.IsUnion xs u ↔ t.IsUnion xs u := by
  unfold IsUnion
  rw [s.canonicalMembers_congr (s.agreeBelow g) hxs, g.resolve hu]

theorem IsUnion.grows (h : t.IsUnion xs u) (s : t.Sound) (hxs : t.Has xs)
    (hu : t.Has u) (g : t.Grows t') : t'.IsUnion xs u :=
  (s.isUnion_congr hxs hu g).2 h

/-! ### The edges of a test -/

/-- A type that is kept on one of two edges, or is `boolean` and taken apart. -/
def Covers (m : TypeId) (left left' : Option TypeId) : Prop :=
  left = some m ∨ left' = some m ∨ m = .boolean ∧
    (left = some .true ∧ left' = some .false ∨ left = some .false ∧ left' = some .true)

/-- What the two edges of a test leave of a type: nothing is lost. -/
def Splits (t : TypeTable) (type : TypeId) (edge : Bool → TableM TypeId) : Prop :=
  ∀ p n : TypeId, Below t.size p → Below t.size n → t.Answers (edge false) p →
    t.Answers (edge true) n → t.Still p ∧ t.Still n ∧ t.Absorbed [p, n] type

theorem Splits.of_later {edge : Bool → TableM TypeId} (s : t.Sound) (p : t.Resumes t')
    (r : t.Runs t') (htype : t.Has type) (h : t'.Splits type edge) : t.Splits type edge := by
  intro x y hx hy answerX answerY
  obtain ⟨stillX, stillY, absorbed⟩ :=
    h x y (r hx) (r hy) (answerX.later p) (answerY.later p)
  exact ⟨stillX.of_grows s hx p.toGrows, stillY.of_grows s hy p.toGrows,
    absorbed.of_grows s p.toGrows (below_cons.2 ⟨htype, below_pair.2 ⟨hx, hy⟩⟩)⟩

/-- A test with a rule for each edge loses nothing if the rules cover every alternative. -/
theorem Sound.splits_of_rules {edge top : Bool → TableM TypeId}
    {rule : Bool → TypeId → TableM (Option TypeId)} (s : t.Sound) (p : t.Resumes t)
    (htype : t.Has type) (still : t.Still type)
    (shape : ∀ e t', t.Resumes t' → edge e t' =
      (do if ← isTop type then top e else keepMembers type (rule e) : TableM TypeId) t')
    (otherwise : ∀ t', t.Resumes t' → top true t' = (type, t'))
    (tops : ∀ t', t.Resumes t' → (top false t').2.Still (top false t').1)
    (repeats : ∀ e, ∀ m ∈ t.unionMembers type, ∀ t', t'.Sound → t.Grows t' → Repeats True t' (rule e m))
    (left : ∀ e, ∀ m ∈ t.unionMembers type, ∀ t', t.Resumes t' → ∀ k, (rule e m t').1 = some k →
      t.Has k ∧ t.Still k ∨ (rule e m t').2.Still k)
    (covers : ∀ m ∈ t.unionMembers type, ∀ t', t.Resumes t' →
      Covers m (rule false m t').1 (rule true m t').1) : t.Splits type edge := by
  intro x y hx hy answerX answerY
  obtain ⟨t1, run1, carries1⟩ := answerX t p
  have p1 := p.carries carries1
  obtain ⟨t2, run2, carries2⟩ := answerY t1 p1
  have g1 := carries1.runs.toGrows
  have still1 := still.grows s htype g1
  have node := g1.resolve htype
  rw [shape false t p, bind_of_eq (s.isTop_of_still still)] at run1
  rw [shape true t1 p1, bind_of_eq (carries1.sound.isTop_of_still still1), node] at run2
  by_cases htop : t.resolve type = .any ∨ t.resolve type = .unknown
  · rw [decide_eq_true htop, if_pos rfl] at run1 run2
    have result := tops t p
    rw [run1] at result
    obtain ⟨rfl, -⟩ := Prod.mk.inj ((otherwise t1 p1).symm.trans run2)
    exact ⟨result.of_grows s hx g1, still, canonicalMembers_of_mem (by simp)⟩
  · rw [decide_eq_false htop, if_neg Bool.false_ne_true] at run1 run2
    have members : t1.unionMembers type = t.unionMembers type := (s.agreeBelow g1).unionMembers htype
    obtain ⟨-, -, ps, hps, chosen1⟩ := Leaves.ends (still.keeps_keepMembers s p.rest
      fun m hm t' s' r' => repeats false m hm t' s' r') run1
    obtain ⟨-, -, ns, hns, chosen2⟩ := Leaves.ends (still1.keeps_keepMembers carries1.sound p1.rest
      fun m hm t' s' r' => repeats true m (members ▸ hm) t' s' (g1.trans r')) run2
    rw [members] at chosen2
    -- Both edges are compared on the last table.
    have s2 := carries2.sound
    have p2 := p1.carries carries2
    have g2 := g1.trans carries2.runs.toGrows
    have self := p2.self
    have hps := hps.grows carries1.sound chosen1.below (g1 hx) carries2.runs.toGrows
    have chosen1 := chosen1.runs carries2.runs
    have one : ∀ {e m o}, t2.Answers (rule e m) o → (rule e m t2).1 = o := by
      intro e m o answers
      obtain ⟨t3, run, -⟩ := answers t2 self
      rw [run]
    have kept : ∀ {e ks}, t2.Chosen (rule e) (t.unionMembers type) ks → ∀ k ∈ ks, t2.Still k := by
      intro e ks chosen k hk
      obtain ⟨m, hm, answers⟩ := chosen.only k hk
      obtain ⟨t3, run, carries3⟩ := answers t2 self
      rcases left e m hm t2 p2 k (one answers) with ⟨below, result⟩ | result
      · exact result.grows s below g2
      · rw [run] at result
        exact result.of_grows s2 (chosen.below k hk) carries3.runs
    refine ⟨(hps.still s2 (kept chosen1)).of_grows s hx g2,
      (hns.still s2 (kept chosen2)).of_grows s hy g2, ?_⟩
    refine Absorbed.of_grows s g2 (below_cons.2 ⟨htype, below_pair.2 ⟨hx, hy⟩⟩) (s2.absorbed_of_kept
      hps hns fun m hm => ?_)
    rw [(s.agreeBelow g2).unionMembers htype] at hm
    obtain ⟨o, answers, ho⟩ := chosen1.all m hm
    obtain ⟨o', answers', ho'⟩ := chosen2.all m hm
    have cover := covers m hm t2 p2
    rw [one answers, one answers'] at cover
    rcases cover with h | h | ⟨rfl, ⟨h, h'⟩ | ⟨h, h'⟩⟩
    · exact .inl (mem_append_left _ (ho m h))
    · exact .inl (mem_append_right _ (ho' m h))
    · exact .inr ⟨rfl, mem_append_left _ (ho _ h), mem_append_right _ (ho' _ h')⟩
    · exact .inr ⟨rfl, mem_append_right _ (ho' _ h'), mem_append_left _ (ho _ h)⟩

/-- A test that keeps alternatives whole loses nothing if each is kept on one edge. -/
theorem Sound.splits_of_filters {edge top : Bool → TableM TypeId}
    {keep : Bool → TypeId → TableM Bool} (s : t.Sound) (p : t.Resumes t)
    (htype : t.Has type) (still : t.Still type)
    (shape : ∀ e t', t.Resumes t' → edge e t' =
      (do if ← isTop type then top e else filterMembers type (keep e) : TableM TypeId) t')
    (otherwise : ∀ t', t.Resumes t' → top true t' = (type, t'))
    (tops : ∀ t', t.Resumes t' → (top false t').2.Still (top false t').1)
    (repeats : ∀ e, ∀ m ∈ t.unionMembers type, ∀ t', t'.Sound → t.Grows t' → Repeats True t' (keep e m))
    (covers : ∀ m ∈ t.unionMembers type, ∀ t', t.Resumes t' →
      (keep false m t').1 = true ∨ (keep true m t').1 = true) : t.Splits type edge := by
  have hm : ∀ {m}, m ∈ t.unionMembers type → t.Has m :=
    fun {m} hm => s.below_unionMembers htype m hm
  have run : ∀ e m t', ((do return if ← keep e m then some m else none : TableM (Option TypeId))
      t').1 = if (keep e m t').1 then some m else none := fun _ _ _ => rfl
  refine s.splits_of_rules p htype still shape otherwise tops
    (fun e m hmem t' s' g' => repeats_choice (repeats e m hmem t' s' g') (g' (hm hmem)))
    (fun e m hmem t' _ k hk => .inl ?_) fun m hmem t' p' => ?_
  · rw [run] at hk
    split at hk
    · exact Option.some.inj hk ▸ ⟨hm hmem, still.member s hmem⟩
    · cases hk
  · rw [run, run]
    rcases covers m hmem t' p' with h | h
    · exact .inl (if_pos h)
    · exact .inr (.inl (if_pos h))

end TypeTable

namespace Narrowing

variable {t : TypeTable} {type : TypeId}
variable {key : String}

/-! ### Types that tests name -/

section

variable (s : t.Sound)
include s

theorem still_unionOf {xs : List TypeId} (hxs : t.Has xs)
    (h : ∀ x ∈ xs, t.Still x) : Keeps Runs t (unionOf xs) fun t1 u => t1.Still u := by
  have made : Leaves Runs t (unionOf xs) _ := safe_unionOf s hxs
  exact ⟨made.sound, made.related, (s.isUnion_unionOf hxs (.refl _)).still made.sound
    fun x hx => (h x hx).grows s (hxs x hx) made.related⟩

theorem still_null : t.Still .null := s.still_fixed (i := 6) rfl rfl

theorem still_undefined : t.Still .undefined := s.still_fixed (i := 7) rfl rfl

theorem still_true : t.Still .true := s.still_fixed (i := 11) rfl rfl

theorem still_false : t.Still .false := s.still_fixed (i := 12) rfl rfl

/-- The node of an object that was made. -/
theorem keeps_objectOf_node {ps : List Property} {index : Option TypeId}
    (hps : t.Has ps) (hindex : t.Has index) :
    Keeps Runs t (objectOf ps index) fun t1 u => t1.Has u ∧ (t1.resolve u).isHead = true := by
  have made : Leaves Runs t (objectOf ps index) _ := safe_objectOf s hps hindex
  refine ⟨made.sound, made.related, made.post, ?_⟩
  have node : (objectOf ps index t).2.get? (objectOf ps index t).1 = some (.object _) :=
    s.indexed.get?_insert
  rw [resolve_of_get? node]
  rfl

theorem still_typeOfTag? {tag : String} :
    Keeps Runs t (typeOfTag? tag) fun t1 o => ∀ k, o = some k → t1.Still k := by
  have fixed : ∀ {i ty}, TypeTable.fixed[i]? = some ty → ty.isHead = true →
      Keeps Runs t (pure (some ⟨i⟩) : TableM (Option TypeId)) fun t1 o =>
        ∀ k, o = some k → t1.Still k :=
    fun h hty => .pure s fun k hk => Option.some.inj hk ▸ s.still_fixed h hty
  unfold typeOfTag?
  split
  · exact fixed (i := 3) rfl rfl
  · exact fixed (i := 4) rfl rfl
  · exact fixed (i := 5) rfl rfl
  · exact fixed (i := 10) rfl rfl
  · exact fixed (i := 9) rfl rfl
  · exact fixed (i := 7) rfl rfl
  · refine (keeps_objectOf_node s below_nil below_none).bind fun t1 object s1 _ hobject => ?_
    refine (still_unionOf s1 (below_pair.2 ⟨hobject.1, s1.below_fixed rfl⟩) fun x hx => ?_).bind fun
      t2 u s2 _ hu => .pure s2 fun k hk =>
        Option.some.inj hk ▸ hu
    rcases mem_cons.1 hx with rfl | hx
    · exact still_of_isHead hobject.2
    · exact mem_singleton.1 hx ▸ still_null s1
  · exact .pure s fun _ h => nomatch h

theorem still_typeOfNullTest (kind : NullTest) :
    Keeps Runs t (typeOfNullTest kind) fun t1 u => t1.Still u := by
  cases kind with
  | null => exact .pure s (still_null s)
  | undefined => exact .pure s (still_undefined s)
  | both =>
    refine still_unionOf s (below_cons.2 ⟨s.below_fixed rfl,
      below_singleton.2 (s.below_fixed rfl)⟩) fun x hx => ?_
    rcases mem_cons.1 hx with rfl | hx
    · exact still_null s
    · exact mem_singleton.1 hx ▸ still_undefined s

end

theorem mayBe_truthy_or_falsy {node : Ty} : mayBeTruthy node = true ∨ mayBeFalsy node = true := by
  cases node with
  | primitive p => cases p <;> simp [mayBeTruthy, mayBeFalsy, Primitive.isNullish]
  | literal l => cases h : l.isFalsy <;> simp [mayBeTruthy, mayBeFalsy, h]
  | _ => exact .inl rfl

theorem isSubtype_self (a : TypeId) (t : TypeTable) : isSubtype a a t = (true, t) := by
  have settled : Subtyping.settled t a a = true := by simp [Subtyping.settled]
  show t.operations.isSubtype [] a a t = _
  unfold TypeTable.operations
  generalize t.limits.maxDepth - t.depth = n
  cases n <;> exact Subtyping.step_of_holds (.inl settled)

/-- What a choice leaves. -/
theorem eq_of_ite {c : Prop} [Decidable c] {a k : TypeId}
    (h : (if c then some a else none) = some k) : k = a := by
  split at h
  · exact (Option.some.inj h).symm
  · cases h

theorem eq_of_equalMember {value m k : TypeId} (h : (equalMember value m t).1 = some k) :
    k = value ∨ k = m := by
  have node : resolve m t = (t.resolve m, t) := rfl
  rw [equalMember, bind_of_eq node] at h
  cases hm : t.resolve m with
  | primitive => rw [hm] at h; exact .inl (eq_of_ite h)
  | param => rw [hm] at h; exact .inr (Option.some.inj h).symm
  | _ => rw [hm] at h; cases h

/-! ### One lemma for each test -/

section

variable (s : t.Sound) (p : t.Resumes t) (htype : t.Has type) (still : t.Still type)

include s p htype still

theorem splits_byTag {tag : String} : t.Splits type (byTag type tag) := by
  refine s.splits_of_filters p htype still (fun _ _ _ => rfl) (fun _ _ => rfl) (fun t' p' => ?_)
    (fun e m hm t' s' g' => ?_) fun m hm t' _ => ?_
  · have named : Leaves Runs t' (do return (← typeOfTag? tag).getD type : TableM TypeId)
        fun t1 u => t1.Still u := by
      refine Tabled.Keeps.bind (still_typeOfTag? p'.sound) fun t1 o s1 r1 ho => .pure s1 ?_
      cases o with
      | none => exact still.grows s htype (p'.toGrows.trans r1)
      | some k => exact ho k rfl
    exact named.post
  · refine .node (m := TableM) (g' (s.below_unionMembers htype m hm)) ?_
    split <;> exact .pure s' trivial
  · have node : resolve m t' = (t'.resolve m, t') := rfl
    rw [bind_of_eq node, bind_of_eq node]
    cases (t'.resolve m).typeofTag? with
    | none => exact .inl rfl
    | some found =>
      show (found == tag) != false ∨ (found == tag) != true
      cases found == tag <;> simp

theorem splits_byTruth : t.Splits type (byTruth type) := by
  refine s.splits_of_rules p htype still (fun _ _ _ => rfl) (fun _ _ => rfl)
    (fun t' p' => still.grows s htype p'.toGrows)
    (fun e m hm t' s' g' => ?_) (fun e m hm t' p' k hk => .inl ?_) fun m hm t' _ => ?_
  · have hm := g' (s.below_unionMembers htype m hm)
    split
    · exact .pure s' (below_some.2 (below_ite (s'.below_fixed rfl)
        (s'.below_fixed rfl)))
    · exact .node (m := TableM) hm
        (.pure s' (below_ite (below_some.2 hm) below_none))
  · by_cases hb : m = .boolean
    · rw [if_pos hb] at hk
      obtain rfl := Option.some.inj hk
      cases e with
      | true => exact ⟨s.below_fixed rfl, still_false s⟩
      | false => exact ⟨s.below_fixed rfl, still_true s⟩
    · rw [if_neg hb] at hk
      obtain rfl := eq_of_ite hk
      exact ⟨s.below_unionMembers htype k hm, still.member s hm⟩
  · by_cases hb : m = .boolean
    · rw [if_pos hb, if_pos hb]
      exact .inr (.inr ⟨hb, .inl ⟨rfl, rfl⟩⟩)
    · rw [if_neg hb, if_neg hb]
      show Covers m (if mayBeTruthy (t'.resolve m) then some m else none)
        (if mayBeFalsy (t'.resolve m) then some m else none)
      rcases mayBe_truthy_or_falsy with h | h
      · exact .inl (if_pos h)
      · exact .inr (.inl (if_pos h))

theorem splits_byNull (kind : NullTest) : t.Splits type (byNull type kind) := by
  refine s.splits_of_filters p htype still (fun _ _ _ => rfl) (fun _ _ => rfl)
    (fun t' p' => Leaves.post (still_typeOfNullTest p'.sound kind))
    (fun e m hm t' s' g' => ?_) fun m hm t' _ => ?_
  · exact .node (m := TableM) (g' (s.below_unionMembers htype m hm))
      (.pure s' trivial)
  · show (kind.accepts (t'.resolve m) != false || _) = true ∨
      (kind.accepts (t'.resolve m) != true || _) = true
    cases kind.accepts (t'.resolve m) with
    | true => exact .inl rfl
    | false => exact .inr rfl

theorem splits_byValue {value : TypeId} (hvalue : t.Has value) (single : t.Still value) :
    t.Splits type (byValue type value) := by
  refine s.splits_of_rules p htype still (fun _ _ _ => rfl) (fun _ _ => rfl)
    (fun t' p' => single.grows s hvalue p'.toGrows)
    (fun e m hm t' s' g' => ?_) (fun e m hm t' p' k hk => .inl ?_) fun m hm t' _ => ?_
  · have hm := g' (s.below_unionMembers htype m hm)
    have hvalue := g' hvalue
    split
    · exact .pure s' (below_ite below_none (below_some.2 hm))
    split
    · exact .pure s' (below_some.2 (below_ite (s'.below_fixed rfl) hvalue))
    split
    · exact .pure s' (below_some.2 (below_ite (s'.below_fixed rfl) hvalue))
    split
    · exact .pure s' (below_some.2 hm)
    · exact repeats_equalMember s' hvalue hm
  · have own : t.Has m ∧ t.Still m :=
      ⟨s.below_unionMembers htype m hm, still.member s hm⟩
    by_cases hv : m = value
    · rw [if_pos hv] at hk
      cases e with
      | true => cases hk
      | false => exact Option.some.inj hk ▸ own
    rw [if_neg hv] at hk
    by_cases ht : m = .boolean ∧ value = .true
    · rw [if_pos ht] at hk
      cases e with
      | true =>
        obtain rfl : TypeId.false = k := Option.some.inj hk
        exact ⟨s.below_fixed rfl, still_false s⟩
      | false => exact Option.some.inj hk ▸ ⟨hvalue, single⟩
    rw [if_neg ht] at hk
    by_cases hf : m = .boolean ∧ value = .false
    · rw [if_pos hf] at hk
      cases e with
      | true =>
        obtain rfl : TypeId.true = k := Option.some.inj hk
        exact ⟨s.below_fixed rfl, still_true s⟩
      | false => exact Option.some.inj hk ▸ ⟨hvalue, single⟩
    rw [if_neg hf] at hk
    cases e with
    | true => exact Option.some.inj hk ▸ own
    | false =>
      rcases eq_of_equalMember hk with rfl | rfl
      · exact ⟨hvalue, single⟩
      · exact own
  · by_cases hv : m = value
    · rw [if_pos hv]
      exact .inl rfl
    rw [if_neg hv, if_neg hv]
    by_cases ht : m = .boolean ∧ value = .true
    · rw [if_pos ht, if_pos ht, ht.2]
      exact .inr (.inr ⟨ht.1, .inl ⟨rfl, rfl⟩⟩)
    rw [if_neg ht, if_neg ht]
    by_cases hf : m = .boolean ∧ value = .false
    · rw [if_pos hf, if_pos hf, hf.2]
      exact .inr (.inr ⟨hf.1, .inr ⟨rfl, rfl⟩⟩)
    rw [if_neg hf, if_neg hf]
    exact .inr (.inl rfl)

theorem splits_byField {field : String} {value : TypeId} (hvalue : t.Has value) :
    t.Splits type (byField type field value) := by
  refine s.splits_of_filters p htype still (fun _ _ _ => rfl) (fun _ _ => rfl)
    (fun t' p' => still.grows s htype p'.toGrows)
    (fun e m hm t' s' g' => ?_) fun m hm t' _ => ?_
  · exact repeats_fieldKeep s' (g' hvalue) (g' (s.below_unionMembers htype m hm))
  · have node : resolve m t' = (t'.resolve m, t') := rfl
    rw [fieldKeep, fieldKeep, bind_of_eq node, bind_of_eq node]
    cases (t'.resolve m).object?.bind (·.read? field) with
    | none => exact .inr rfl
    | some fieldType =>
      cases run : evaluate fieldType t' with
      | mk found t1 =>
        dsimp only
        rw [bind_of_eq run, bind_of_eq run, if_neg Bool.false_ne_true, if_pos rfl]
        by_cases same : found = value
        · rw [same, isSubtype_self]
          exact .inl rfl
        · exact .inr (decide_eq_true same)

theorem splits_byType {target : TypeId} (htarget : t.Has target) (plain : t.Still target) :
    t.Splits type (byType type target) := by
  refine s.splits_of_rules p htype still (fun _ _ _ => rfl) (fun _ _ => rfl)
    (fun t' p' => plain.grows s htarget p'.toGrows)
    (fun e m hm t' s' g' => ?_) (fun e m hm t' p' k hk => .inl ?_) fun m hm t' _ => ?_
  · have hm := g' (s.below_unionMembers htype m hm)
    have htarget := g' htarget
    refine .bind (repeats_isSubtype s' hm htarget) fun t1 within s1 r1 _ => ?_
    have hm := r1 hm
    have htarget := r1 htarget
    split
    · exact .pure s1 (below_ite below_none (below_some.2 hm))
    split
    · exact .pure s1 (below_some.2 hm)
    · refine .bind (repeats_isSubtype s1 htarget hm) fun t2 b s2 r2 _ => ?_
      exact .pure s2 (below_ite (below_some.2 (r2 htarget)) below_none)
  · have own : t.Has m ∧ t.Still m :=
      ⟨s.below_unionMembers htype m hm, still.member s hm⟩
    cases run : isSubtype m target t' with
    | mk within t1 =>
    rw [bind_of_eq run] at hk
    cases e with
    | true =>
      cases within with
      | true => cases hk
      | false => exact Option.some.inj hk ▸ own
    | false =>
      cases within with
      | true => exact Option.some.inj hk ▸ own
      | false => exact eq_of_ite (c := (isSubtype target m t1).1 = true) hk ▸ ⟨htarget, plain⟩
  · cases run : isSubtype m target t' with
    | mk within t1 =>
      rw [bind_of_eq run, bind_of_eq run]
      cases within with
      | true => exact .inl rfl
      | false => exact .inr (.inl rfl)

end

/-! ### Keys -/

/-- Whether an object among the alternatives of a type has a field of its own of some name. -/
def namesKey (t : TypeTable) (type : TypeId) (key : String) : Bool :=
  (t.unionMembers type).any fun m => ((t.resolve m).object?.bind (·.property? key)).isSome

theorem mayHaveKey_cover {node : Ty} :
    mayHaveKey key false node = true ∨ mayHaveKey key true node = true := by
  cases node with
  | object o => cases h : o.property? key <;> simp [mayHaveKey, h]
  | _ => exact .inr rfl

theorem mayHaveKey_of_unnamed {node : Ty}
    (h : (node.object?.bind (·.property? key)).isSome = false) :
    mayHaveKey key true node = true := by
  cases node with
  | object o =>
    have h : (o.property? key).isSome = false := h
    have absent : o.property? key = none := by simpa using h
    simp [mayHaveKey, absent]
  | _ => rfl

theorem namesKey_congr (s : t.Sound) (htype : t.Has type) {t' : TypeTable}
    (g : t.Grows t') (key : String) : namesKey t' type key = namesKey t type key := by
  unfold namesKey
  rw [(s.agreeBelow g).unionMembers htype, Bool.eq_iff_iff, any_eq_true, any_eq_true]
  exact exists_congr fun m => and_congr_right fun hm => by
    rw [g.resolve (s.below_unionMembers htype m hm)]

theorem byKey_of_still (s : t.Sound) (still : t.Still type) {negated : Bool} :
    byKey type key negated t =
      (do if ← isTop type then pure type
          else if !negated && !namesKey t type key then do
            let withKey ← objectOf [{ name := key, type := .unknown }] none
            keepMembers type (gainKey withKey)
          else filterMembers type (keyRule key negated) : TableM TypeId) t := by
  rw [byKey, bind_of_eq (s.isTop_of_still still), bind_of_eq (s.isTop_of_still still)]
  split
  · rfl
  · rw [bind_of_eq (s.memberForms_of_still still), get_bind]
    dsimp only
    rw [any_map]
    rfl

theorem left_gainKey (s : t.Sound) {withKey m k : TypeId} (hm : t.Has m)
    (hkey : t.Has withKey) (node : (t.resolve withKey).isHead = true)
    (h : (gainKey withKey m t).1 = some k) : k = m ∨ (gainKey withKey m t).2.Still k := by
  have meets : (t.resolve m).isHead = true →
      (intersectionOf [m, withKey] t).2.Still (intersectionOf [m, withKey] t).1 := fun head =>
    Leaves.post (leaves_intersectionOf_still s (below_pair.2 ⟨hm, hkey⟩)
      fun x hx => by
        rcases mem_cons.1 hx with rfl | hx
        · exact head
        · exact mem_singleton.1 hx ▸ node)
  have here : resolve m t = (t.resolve m, t) := rfl
  rw [gainKey, bind_of_eq here] at h ⊢
  cases hnode : t.resolve m with
  | object o =>
    rw [hnode] at h meets
    dsimp only at h ⊢
    by_cases index : o.index.isNone = true
    · rw [if_pos index] at h ⊢
      exact .inr (Option.some.inj h ▸ meets rfl)
    · rw [if_neg index] at h
      exact .inl (Option.some.inj h).symm
  | promise =>
    rw [hnode] at h meets
    exact .inr (Option.some.inj h ▸ meets rfl)
  | array | tuple | function | param => rw [hnode] at h; exact .inl (Option.some.inj h).symm
  | _ => rw [hnode] at h; cases h

/-- Where no alternative names the key, each of them is kept where the key is not. -/
theorem splits_byKey_gained (s : t.Sound) (p : t.Resumes t) (htype : t.Has type)
    (still : t.Still type) {withKey : TypeId}
    (unnamed : namesKey t type key = false) (hkey : t.Has withKey)
    (head : (t.resolve withKey).isHead = true) (made : ∀ t', t.Resumes t' →
      objectOf [{ name := key, type := .unknown }] none t' = (withKey, t')) :
    t.Splits type (byKey type key) := by
  have hm : ∀ {m}, m ∈ t.unionMembers type → t.Has m :=
    fun {m} hm => s.below_unionMembers htype m hm
  have shape : ∀ e t', t.Resumes t' → byKey type key e t' = (do
      if ← isTop type then pure type else keepMembers type (bif e then
        fun m => do return if ← keyRule key true m then some m else none
      else gainKey withKey) : TableM TypeId) t' := by
    intro e t' p'
    have still' := still.grows s htype p'.toGrows
    rw [byKey_of_still p'.sound still', bind_of_eq (p'.sound.isTop_of_still still'),
      bind_of_eq (p'.sound.isTop_of_still still'), namesKey_congr s htype p'.toGrows, unnamed]
    split
    · rfl
    · cases e with
      | true => rfl
      | false => exact bind_of_eq (made t' p')
  refine s.splits_of_rules p htype still shape (fun _ _ => rfl)
    (fun t' p' => still.grows s htype p'.toGrows) (fun e m hmem t' s' g' => ?_)
    (fun e m hmem t' p' k hk => ?_) fun m hmem t' p' => ?_
  · have hmem := g' (hm hmem)
    cases e with
    | true => exact repeats_choice (.node (m := TableM) hmem (.pure s' trivial)) hmem
    | false => exact repeats_gainKey s' (g' hkey) hmem
  · have own : t.Has m ∧ t.Still m := ⟨hm hmem, still.member s hmem⟩
    cases e with
    | true => exact .inl (eq_of_ite (c := mayHaveKey key true (t'.resolve m) = true) hk ▸ own)
    | false =>
      have head : (t'.resolve withKey).isHead = true := p'.resolve hkey ▸ head
      rcases left_gainKey p'.sound (p'.toGrows.below own.1) (p'.toGrows.below hkey) head hk with
        rfl | h
      · exact .inl own
      · exact .inr h
  · refine .inr (.inl (if_pos (mayHaveKey_of_unnamed ?_)))
    rw [p'.resolve (hm hmem)]
    exact Bool.not_eq_true _ ▸ any_eq_false.1 unnamed m hmem

theorem splits_byKey (s : t.Sound) (p : t.Resumes t) (htype : t.Has type)
    (still : t.Still type) : t.Splits type (byKey type key) := by
  have repeats : ∀ e, ∀ m ∈ t.unionMembers type, ∀ t', t'.Sound → t.Grows t' →
      Repeats True t' (keyRule key e m) := fun e m hm t' s' g' =>
    .node (m := TableM) (g' (s.below_unionMembers htype m hm))
      (.pure s' trivial)
  cases named : namesKey t type key with
  | true =>
    have shape : ∀ e t', t.Resumes t' → byKey type key e t' = (do
        if ← isTop type then pure type else filterMembers type (keyRule key e) : TableM TypeId)
          t' := by
      intro e t' p'
      rw [byKey_of_still p'.sound (still.grows s htype p'.toGrows),
        namesKey_congr s htype p'.toGrows, named, Bool.not_true, Bool.and_false]
      rfl
    exact s.splits_of_filters p htype still shape (fun _ _ => rfl)
      (fun t' p' => still.grows s htype p'.toGrows) repeats
      fun m _ t' _ => mayHaveKey_cover
  | false =>
    -- The object with the key is made once; from then on it is there.
    have hps : t.Has [({ name := key, type := .unknown } : Property)] :=
      below_singleton.2 s.below_unknown
    have object : Leaves Runs t (objectOf [{ name := key, type := .unknown }] none) _ :=
      keeps_objectOf_node s hps below_none
    have again := (Leaves.post (stable_objectOf s hps below_none)).2
    have untripped := (idle_insert t (.object ⟨sortProperties [{ name := key, type := .unknown }],
      none⟩)).depthError.trans p.untripped
    have p1 := p.carries ⟨object.sound, object.related, untripped⟩
    have self := p1.self
    refine Splits.of_later s p1 object.related htype ?_
    refine splits_byKey_gained object.sound self (object.related.below htype)
      (still.grows s htype p1.toGrows) ?_ object.post.1 object.post.2
      fun t' p' => again t' p'.toPrecedes
    rw [namesKey_congr s htype p1.toGrows, named]

end Narrowing

/-- **The two edges of a test lose nothing** of a type that evaluation leaves alone. -/
theorem splits_narrowByTest {t : TypeTable} {type : TypeId} (s : t.Sound) (p : t.Resumes t)
    (htype : t.Has type) (still : t.Still type) {test : Test} (htest : t.Has test)
    (operand : ∀ id, test.type? = some id → t.Still id) :
    t.Splits type (narrowByTest type test) := by
  have named : ∀ {id}, test.type? = some id → t.Has id ∧ t.Still id := fun {id} h =>
    ⟨htest id h, operand id h⟩
  cases test with
  | typeOf tag => exact splits_byTag s p htype still
  | truthy => exact splits_byTruth s p htype still
  | nullish kind => exact splits_byNull s p htype still kind
  | equals value => exact splits_byValue s p htype still (named rfl).1 (named rfl).2
  | fieldEquals field value => exact splits_byField s p htype still (named rfl).1
  | hasKey key => exact splits_byKey s p htype still
  | instanceOf target => exact splits_byType s p htype still (named rfl).1 (named rfl).2
  | predicate target => exact splits_byType s p htype still (named rfl).1 (named rfl).2

end GradualTyping
