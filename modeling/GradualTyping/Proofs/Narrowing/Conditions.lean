/-
# The two edges of a condition lose nothing

Both edges of a compound condition are read from its parts.  The conjunction of two
guards fails where the first one fails, or where it holds and the second one fails; there
the types of a variable are joined.  So what the first guard splits off is in the union of
both edges, and what it leaves is split by the second guard (`Divides.join`).

The argument is about the type of every variable at once, on a table on which both
guards answer as they did: what is read twice, the environment where the first guard
holds, is the same environment.
-/

import GradualTyping.Proofs.Narrowing.Joins

namespace GradualTyping

open TypeTable List TypeEnv

/-! ### Environments in order -/

namespace TypeEnv

variable {env a b : TypeEnv} {var x : String} {type : TypeId}

/-- What a guard makes of an environment: one in order that is reached if the first one is. -/
structure Follows (env env' : TypeEnv) : Prop where
  ordered : env'.Ordered
  reachable : env'.reachable = env.reachable

theorem Follows.trans {env' env'' : TypeEnv} (h : env.Follows env') (h' : env'.Follows env'') :
    env.Follows env'' :=
  ⟨h'.ordered, h'.reachable.trans h.reachable⟩

theorem follows_foldlM {step : TypeEnv → String × TypeId → TableM TypeEnv}
    (hstep : ∀ merged p t, ∃ type, (step merged p t).1 = merged.insert p.1 type)
    {bindings : List (String × TypeId)} (h : env.Ordered) (t : TypeTable) :
    env.Follows (bindings.foldlM step env t).1 := by
  induction bindings generalizing env t with
  | nil => exact ⟨h, rfl⟩
  | cons b bs ih =>
    obtain ⟨type, hb⟩ := hstep env b t
    have next : env.Follows (step env b t).1 := hb ▸ ⟨h.insert b.1 type, rfl⟩
    exact next.trans (ih next.ordered (step env b t).2)

theorem follows_merge (ha : a.Ordered) (hb : b.Ordered) (same : b.reachable = a.reachable)
    (t : TypeTable) : a.Follows (merge a b t).1 := by
  unfold merge
  split
  · exact ⟨ha, rfl⟩
  split
  · exact ⟨hb, same⟩
  · exact follows_foldlM (fun _ _ _ => ⟨_, rfl⟩) ha t

theorem follows_apply {guard : Guard} (h : env.Ordered) (t : TypeTable) :
    env.Follows (apply guard env t).1 := by
  have refl : ∀ {env : TypeEnv}, env.Ordered → env.Follows env := fun h => ⟨h, rfl⟩
  induction guard using Guard.readInduction generalizing env t with
  | vacuous => exact refl h
  | simple var test negated =>
    unfold apply
    split
    · exact refl h
    cases env.get? var with
    | none => exact refl h
    | some type => exact ⟨h.insert .., rfl⟩
  | and a b iha ihb =>
    unfold apply
    split
    · exact refl h
    · have left := iha h t
      exact left.trans (ihb left.ordered _)
  | or a b iha ihn ihb =>
    rw [apply_or]
    split
    · exact refl h
    · have left := iha h t
      have middle := ihn h (apply a env t).2
      have right := middle.trans (ihb middle.ordered (apply a.negate env (apply a env t).2).2)
      exact left.trans (follows_merge left.ordered right.ordered
        (right.reachable.trans left.reachable.symm) _)

end TypeEnv

namespace TypeTable

variable {t t' : TypeTable} {env a b : TypeEnv} {type p n m l r u : TypeId}

theorem Absorbed.swap (h : t.Absorbed [p, n] type) : t.Absorbed [n, p] type := by
  unfold Absorbed at h ⊢
  calc t.canonicalMembers [type, n, p]
      = t.canonicalMembers [type, p, n] := canonicalMembers_of_mem (by simp; grind)
    _ = t.canonicalMembers [p, n] := h
    _ = t.canonicalMembers [n, p] := canonicalMembers_of_mem (by simp; grind)

theorem absorbed_self (t : TypeTable) : t.Absorbed [type, type] type :=
  canonicalMembers_of_mem (by simp)

/-- A type that was split in two, of which one part was split again. -/
theorem Absorbed.join (s : t.Sound) (first : t.Absorbed [m, l] type)
    (second : t.Absorbed [p, r] m) (joined : t.IsUnion [l, r] u) : t.Absorbed [p, u] type := by
  have first : ∀ xs, t.canonicalMembers ([type, m, l] ++ xs) = t.canonicalMembers ([m, l] ++ xs) :=
    fun _ => s.canonicalMembers_append first
  have second : ∀ xs, t.canonicalMembers ([m, p, r] ++ xs) = t.canonicalMembers ([p, r] ++ xs) :=
    fun _ => s.canonicalMembers_append second
  unfold Absorbed
  calc t.canonicalMembers [type, p, u]
      = t.canonicalMembers [u, type, p] := canonicalMembers_of_mem (by simp; grind)
    _ = t.canonicalMembers ([l, r] ++ [type, p]) := joined.canonicalMembers_regroup s
    _ = t.canonicalMembers ([p, r] ++ [type, l]) := canonicalMembers_of_mem (by simp; grind)
    _ = t.canonicalMembers ([m, p, r] ++ [type, l]) := (second _).symm
    _ = t.canonicalMembers ([type, m, l] ++ [p, r]) := canonicalMembers_of_mem (by simp; grind)
    _ = t.canonicalMembers ([m, l] ++ [p, r]) := first _
    _ = t.canonicalMembers ([m, p, r] ++ [l]) := canonicalMembers_of_mem (by simp; grind)
    _ = t.canonicalMembers ([p, r] ++ [l]) := second _
    _ = t.canonicalMembers ([l, r] ++ [p]) := canonicalMembers_of_mem (by simp; grind)
    _ = t.canonicalMembers [u, p] := (joined.canonicalMembers_regroup s).symm
    _ = t.canonicalMembers [p, u] := canonicalMembers_of_mem (by simp; grind)

/-- What two edges leave of an environment: nothing is lost of the type of any variable. -/
def Divides (t : TypeTable) (env a b : TypeEnv) : Prop :=
  ∀ x type, env.get? x = some type → t.Still type → ∃ p n, a.get? x = some p ∧
    b.get? x = some n ∧ t.Still p ∧ t.Still n ∧ t.Absorbed [p, n] type

theorem Divides.swap (h : t.Divides env a b) : t.Divides env b a := by
  intro x type hx still
  obtain ⟨p, n, hp, hn, stillP, stillN, absorbed⟩ := h x type hx still
  exact ⟨n, p, hn, hp, stillN, stillP, absorbed.swap⟩

theorem divides_self (t : TypeTable) (env : TypeEnv) : t.Divides env env env :=
  fun _ type hx still => ⟨type, type, hx, hx, still, still, absorbed_self t⟩

theorem Divides.of_grows (s : t.Sound) (g : t.Grows t') (henv : t.Has env)
    (ha : t.Has a) (hb : t.Has b) (h : t'.Divides env a b) : t.Divides env a b := by
  intro x type hx still
  have htype := below_get? henv x type hx
  obtain ⟨p, n, hp, hn, stillP, stillN, absorbed⟩ := h x type hx (still.grows s htype g)
  have below : t.Has p ∧ t.Has n :=
    ⟨below_get? ha x p hp, below_get? hb x n hn⟩
  exact ⟨p, n, hp, hn, stillP.of_grows s below.1 g, stillN.of_grows s below.2 g,
    absorbed.of_grows s g (below_cons.2 ⟨htype, below_pair.2 ⟨below.1, below.2⟩⟩)⟩

/-- The environment where two paths join has the unions of their types. -/
def Merges (t : TypeTable) (a b env : TypeEnv) : Prop :=
  ∀ x l r, a.get? x = some l → b.get? x = some r → ∃ u, env.get? x = some u ∧ t.IsUnion [l, r] u

/-- **The second of two guards splits what the first one leaves.** -/
theorem Divides.join {middle left right joined : TypeEnv} (s : t.Sound)
    (first : t.Divides env middle left) (second : t.Divides middle a right)
    (merges : t.Merges left right joined) : t.Divides env a joined := by
  intro x type hx still
  obtain ⟨m, l, hm, hl, stillM, stillL, absorbed⟩ := first x type hx still
  obtain ⟨p, r, hp, hr, stillP, stillR, absorbed'⟩ := second x m hm stillM
  obtain ⟨u, hu, isUnion⟩ := merges x l r hl hr
  have stillU : t.Still u := isUnion.still s fun x hx => by
    rcases mem_pair.1 hx with rfl | rfl
    · exact stillL
    · exact stillR
  exact ⟨p, u, hp, hu, stillP, stillU, absorbed.join s absorbed' isUnion⟩

theorem Answers.merges (s : t.Sound) (self : t.Resumes t) {joined : TypeEnv} (ha : t.Has a)
    (hb : t.Has b) (hjoined : t.Has joined) (ordered : a.Ordered)
    (ordered' : b.Ordered) (reachable : a.reachable = true) (reachable' : b.reachable = true)
    (h : t.Answers (a.merge b) joined) : t.Merges a b joined := by
  intro x l r hl hr
  obtain ⟨t1, run, carries⟩ := h t self
  obtain ⟨-, r1, -, -, -, all⟩ :=
    Leaves.ends (keeps_merge s ha hb ordered ordered' reachable reachable') run
  have here := all x
  rw [hl, hr] at here
  obtain ⟨u, hu, isUnion⟩ := here
  exact ⟨u, hu, (s.isUnion_congr (below_pair.2 ⟨below_get? ha x l hl,
    below_get? hb x r hr⟩) (below_get? hjoined x u hu) r1).1
      isUnion⟩

end TypeTable

/-! ### Guards -/

/-- The types that the tests of a guard compare with. -/
def Guard.operands : Guard → List TypeId
  | .simple _ test _ => test.type?.toList
  | .and a b | .or a b => a.operands ++ b.operands
  | .vacuous => []

theorem Guard.below_operands {n : Nat} {guard : Guard} (h : Below n guard) :
    Below n guard.operands := by
  induction guard with
  | vacuous => exact below_nil
  | simple var test negated => exact fun id hid => h id (Option.mem_toList.1 hid)
  | and a b iha ihb | or a b iha ihb => exact below_append.2 ⟨iha h.1, ihb h.2⟩

theorem Guard.operands_negate (guard : Guard) : guard.negate.operands = guard.operands := by
  induction guard <;> simp_all [Guard.negate, Guard.operands]

theorem TypeEnv.apply_unreachable {env : TypeEnv} {guard : Guard} (h : env.reachable = false) :
    env.apply guard = pure env := by
  cases guard <;> simp [apply, h]

theorem TypeTable.Answers.of_pure {α : Type} {t : TypeTable} {a b : α} (self : t.Resumes t)
    (h : t.Answers (pure a) b) : b = a := by
  obtain ⟨t', run, -⟩ := h t self
  exact (Prod.mk.inj run).1.symm

section Edges

open TypeEnv

variable {t : TypeTable} {env a b : TypeEnv}

/-- A test of one variable divides the type of this variable and no other. -/
theorem divides_insert {var : String} {p n : TypeId}
    (h : ∀ type, env.get? var = some type → t.Still type →
      t.Still p ∧ t.Still n ∧ t.Absorbed [p, n] type) :
    t.Divides env (env.insert var p) (env.insert var n) := by
  intro x type hx still
  rw [get?_insert, get?_insert]
  by_cases same : x = var
  · rw [if_pos same, if_pos same]
    obtain ⟨stillP, stillN, absorbed⟩ := h type (same ▸ hx) still
    exact ⟨p, n, rfl, rfl, stillP, stillN, absorbed⟩
  · rw [if_neg same, if_neg same]
    exact divides_self t env x type hx still

theorem divides_unreachable {guard guard' : Guard} (self : t.Resumes t)
    (h : env.reachable = false) (holds : t.Answers (apply guard env) a)
    (fails : t.Answers (apply guard' env) b) : t.Divides env a b := by
  rw [apply_unreachable h] at holds
  rw [apply_unreachable h] at fails
  rw [holds.of_pure self, fails.of_pure self]
  exact divides_self t env

theorem divides_simple (s : t.Sound) (self : t.Resumes t) {var : String} {test : Test}
    {negated : Bool} (htest : t.Has test) (operand : ∀ id, test.type? = some id → t.Still id)
    (henv : t.Has env) (ha : t.Has a) (hb : t.Has b)
    (holds : t.Answers (apply (.simple var test negated) env) a)
    (fails : t.Answers (apply (.simple var test !negated) env) b) : t.Divides env a b := by
  cases reachable : env.reachable with
  | false => exact divides_unreachable self reachable holds fails
  | true =>
  rw [apply, reachable] at holds fails
  cases bound : env.get? var with
  | none =>
    rw [bound] at holds fails
    rw [holds.of_pure self, fails.of_pure self]
    exact divides_self t env
  | some type =>
    rw [bound] at holds fails
    have htype := below_get? henv var type bound
    have insert : ∀ {t1 : TypeTable} {u}, t1.Sound → t.Grows t1 → t1.Has u →
        Repeats True t1 (pure (env.insert var u) : TableM TypeEnv) :=
      fun s1 g1 hu => .pure s1 (below_insert (g1 henv) hu)
    obtain ⟨p, t1, p1, r1, hp, answersP, inserted⟩ := holds.bind_inv self
      (repeats_narrowByTest s htype htest negated) fun t1 u s1 r1 hu => insert s1 r1 hu
    obtain rfl := inserted.of_pure p1.self
    have s1 := p1.sound
    obtain ⟨n, t2, p2, r2, hn, answersN, inserted⟩ := (fails.later p1).bind_inv p1.self
      (repeats_narrowByTest s1 (r1 htype) (r1 htest) (!negated))
      fun t2 u s2 r2 hu => insert s2 (r1.toGrows.trans r2) hu
    obtain rfl := inserted.of_pure p2.self
    have answersP := answersP.later p2
    have g := p1.toGrows.trans p2.toGrows
    refine Divides.of_grows s g henv ha hb (divides_insert fun type' bound' still => ?_)
    obtain rfl := Option.some.inj (bound.symm.trans bound')
    have splits : t2.Splits type (narrowByTest type test) :=
      splits_narrowByTest p2.sound p2.self (g htype) still (g htest)
        fun id hid => (operand id hid).grows s (htest id hid) g
    cases negated with
    | false => exact splits p n (r2 hp) hn answersP answersN
    | true =>
      obtain ⟨stillN, stillP, absorbed⟩ := splits n p hn (r2 hp) answersN answersP
      exact ⟨stillP, stillN, absorbed.swap⟩

/-- A reading of a guard in an environment. -/
structure Reads (t : TypeTable) (env : TypeEnv) (c : TableM TypeEnv) : Prop where
  repeats : ∀ t', t'.Sound → t.Grows t' → Repeats True t' c
  follows : env.Ordered → ∀ t', env.Follows (c t').1

theorem reads_apply {guard : Guard} (hguard : t.Has guard) (henv : t.Has env) :
    Reads t env (apply guard env) :=
  ⟨fun _ s' g' => repeats_apply s' (g' hguard) (g' henv), follows_apply⟩

theorem TypeTable.Answers.run {α : Type} {c : TableM α} {x : α} (h : t.Answers c x)
    (self : t.Resumes t) : (c t).1 = x := by
  obtain ⟨_, run, -⟩ := h t self
  rw [run]

/-- A compound guard: its second part is read where the first one takes the edge `stay`, and
the path on which the first part leaves is joined with the edge `off` of the second. -/
theorem divides_compound {stay leave : TableM TypeEnv} {on off : TypeEnv → TableM TypeEnv}
    (s : t.Sound) (self : t.Resumes t) (henv : t.Has env) (ha : t.Has a)
    (hb : t.Has b) (ordered : env.Ordered) (reachable : env.reachable = true)
    (readsStay : Reads t env stay) (readsLeave : Reads t env leave)
    (readsOn : ∀ t' m, t.Grows t' → t'.Has m → Reads t' m (on m))
    (readsOff : ∀ t' m, t.Grows t' → t'.Has m → Reads t' m (off m))
    (first : ∀ t' m l, t.Resumes t' → t'.Has m → t'.Has l → t'.Answers stay m →
      t'.Answers leave l → t'.Divides env m l)
    (second : ∀ t' m p r, t.Resumes t' → t'.Has m → m.Ordered → t'.Has p →
      t'.Has r → t'.Answers (on m) p → t'.Answers (off m) r → t'.Divides m p r)
    (direct : t.Answers (stay >>= on) a)
    (joined : t.Answers (leave >>= fun l => stay >>= fun m => off m >>= fun r => l.merge r) b) :
    t.Divides env a b := by
  have merges : ∀ t' l r, t'.Sound → t'.Has l → t'.Has r →
      Repeats True t' (merge l r) := fun t' l r s' hl hr => repeats_merge s' hl hr
  have repeatsOff : ∀ t' m, t'.Sound → t.Grows t' → t'.Has m → Repeats True t' (off m) :=
    fun t' m s' g' hm => (readsOff t' m g' hm).repeats t' s' (.refl t')
  obtain ⟨m, t1, p1, r1, hm, stays, answersA⟩ := direct.bind_inv self
    (readsStay.repeats t s (.refl t)) fun t1 m s1 r1 hm =>
      (readsOn t1 m r1 hm).repeats t1 s1 (.refl t1)
  have g1 := p1.toGrows
  obtain ⟨l, t2, p2, r2, hl, leaves, rest⟩ := (joined.later p1).bind_inv p1.self
    (readsLeave.repeats t1 p1.sound g1) fun t2 l s2 r2 hl =>
      .bind (readsStay.repeats t2 s2 (g1.trans r2.toGrows)) fun t3 m s3 r3 hm =>
        .bind (repeatsOff t3 m s3 ((g1.trans r2.toGrows).trans r3.toGrows) hm)
          fun t4 r s4 r4 hr => merges t4 l r s4 ((r3.trans r4) hl) hr
  have g2 := g1.trans p2.toGrows
  obtain ⟨m', t3, p3, r3, hm', stays', rest⟩ := rest.bind_inv p2.self
    (readsStay.repeats t2 p2.sound g2) fun t3 m s3 r3 hm =>
      .bind (repeatsOff t3 m s3 (g2.trans r3.toGrows) hm)
        fun t4 r s4 r4 hr => merges t4 l r s4 ((r3.trans r4) hl) hr
  -- The second reading of the first part gives the same environment.
  obtain rfl : m = m' := (stays.later (p2.trans p3)).unique stays' p3.self
  have g3 := g2.trans p3.toGrows
  obtain ⟨r, t4, p4, r4, hr, answersR, answersB⟩ := rest.bind_inv p3.self
    (repeatsOff t3 m p3.sound g3 hm') fun t4 r s4 r4 hr =>
      merges t4 l r s4 ((r3.trans r4) hl) hr
  have p : t.Resumes t4 := ((p1.trans p2).trans p3).trans p4
  have g := p.toGrows
  have hm := r4 hm'
  have hl := (r3.trans r4) hl
  have middle : env.Follows m := stays.run p1.self ▸ readsStay.follows ordered t1
  have left : env.Follows l := leaves.run p2.self ▸ readsLeave.follows ordered t2
  have right : env.Follows r := middle.trans
    (answersR.run p4.self ▸ (readsOff t4 m g hm).follows middle.ordered t4)
  refine Divides.of_grows s g henv ha hb (Divides.join p.sound
    (first t4 m l p hm hl (stays'.later p4) (leaves.later (p3.trans p4)))
    (second t4 m a r p hm middle.ordered (g ha) hr
      (answersA.later ((p2.trans p3).trans p4)) answersR) ?_)
  exact answersB.merges p.sound p4.self hl hr (g hb) left.ordered right.ordered
    (left.reachable.trans reachable) (right.reachable.trans reachable)

/-- Where a guard holds and where its negation holds, nothing is lost of an environment. -/
def Guard.Divides (guard : Guard) : Prop :=
  ∀ ⦃t : TypeTable⦄ ⦃env a b : TypeEnv⦄, t.Sound → t.Resumes t → Below t.size guard →
    (∀ id ∈ guard.operands, t.Still id) → Below t.size env → env.Ordered → Below t.size a →
    Below t.size b → t.Answers (apply guard env) a → t.Answers (apply guard.negate env) b →
    t.Divides env a b

theorem Guard.Divides.negate {guard : Guard} (h : guard.Divides) : guard.negate.Divides := by
  intro t env a b s self hguard operands henv ordered ha hb holds fails
  rw [Guard.operands_negate] at operands
  rw [Guard.negate_negate] at fails
  exact (h s self (guard.negate_negate ▸ Guard.below_negate hguard) operands henv ordered hb ha
    fails holds).swap

theorem Guard.Divides.and {g h : Guard} (hg : g.Divides) (hh : h.Divides) :
    (Guard.and g h).Divides := by
  intro t env a b s self hguard operands henv ordered ha hb holds fails
  cases reachable : env.reachable with
  | false => exact divides_unreachable self reachable holds fails
  | true =>
    rw [apply, reachable] at holds
    rw [Guard.negate, apply_or, reachable, g.negate_negate] at fails
    have still : ∀ t', t.Resumes t' → ∀ id ∈ g.operands ++ h.operands, t'.Still id :=
      fun t' p' id hid => (operands id hid).grows s (Guard.below_operands hguard id hid) p'.toGrows
    refine divides_compound s self henv ha hb ordered reachable (reads_apply hguard.1 henv)
      (reads_apply (Guard.below_negate hguard.1) henv)
      (fun t' m g' hm => reads_apply (g' hguard.2) hm)
      (fun t' m g' hm => reads_apply (Guard.below_negate (g' hguard.2)) hm)
      (fun t' m l p' hm hl stays leaves => ?_)
      (fun t' m p r p' hm ordered' hp hr answers answers' => ?_) holds fails
    · exact hg p'.sound p'.self (p'.toGrows.below hguard.1)
        (fun id hid => still t' p' id (mem_append_left _ hid)) (p'.toGrows.below henv) ordered
        hm hl stays leaves
    · exact hh p'.sound p'.self (p'.toGrows.below hguard.2)
        (fun id hid => still t' p' id (mem_append_right _ hid)) hm ordered' hp hr answers
        answers'

/-- **The two edges of a condition lose nothing** on a table on which both answer. -/
theorem Guard.divides (guard : Guard) : guard.Divides := by
  induction guard with
  | vacuous =>
    intro t env a b _ self _ _ _ _ _ _ holds fails
    rw [holds.of_pure self, fails.of_pure self]
    exact divides_self t env
  | simple var test negated =>
    intro t env a b s self hguard operands henv _ ha hb holds fails
    exact divides_simple s self hguard
      (fun id hid => operands id (Option.mem_toList.2 hid)) henv ha hb holds fails
  | and g h ihg ihh => exact ihg.and ihh
  | or g h ihg ihh =>
    -- A disjunction is the negation of a conjunction.
    have divided := (ihg.negate.and ihh.negate).negate
    rwa [Guard.negate, g.negate_negate, h.negate_negate] at divided

end Edges

/-- **The two edges of a condition lose nothing.**  Of a variable whose type evaluation leaves
alone, the type adds nothing to the union of the types where a guard holds and where its negation
holds, if the guard compares with such types only and the recursion guard is not tripped. -/
theorem TypeTable.Reachable.edges_lose_nothing {t : TypeTable} (h : t.Reachable) {env : TypeEnv}
    (henv : Below t.size env) (ordered : env.Ordered) {guard : Guard}
    (hguard : Below t.size guard) (operands : ∀ id ∈ guard.operands, t.Still id) {x : String}
    {type : TypeId} (hx : env.get? x = some type) (still : t.Still type) :
    let holds := env.apply guard t
    let fails := env.apply guard.negate holds.2
    fails.2.Untripped → ∃ p n, holds.1.get? x = some p ∧ fails.1.get? x = some n ∧
      let all := unionOf [type, p, n] fails.2
      (unionOf [p, n] all.2).1 = all.1 := by
  intro holds fails untripped
  have s := h.sound
  have first : Leaves Runs t (env.apply guard) _ :=
    Answers.of_repeats (repeats_apply s hguard henv) h.quiescent.evaluating
  have r₁ := first.related
  have second : Leaves Runs holds.2 (env.apply guard.negate) _ := Answers.of_repeats
    (repeats_apply first.sound (Guard.below_negate (r₁.below hguard))
      (r₁.below henv)) (r₁.evaluating.trans h.quiescent.evaluating)
  have r₂ := second.related
  have r := r₁.trans r₂
  have self : fails.2.Resumes fails.2 :=
    ⟨.refl second.sound untripped, rfl, r.evaluating.trans h.quiescent.evaluating⟩
  have htype := below_get? henv x type hx
  obtain ⟨p, n, hp, hn, -, -, absorbed⟩ := guard.divides second.sound self (r hguard)
    (fun id hid => (operands id hid).grows s (Guard.below_operands hguard id hid) r)
    (r henv) ordered (r₂.below first.post.1) second.post.1 (first.post.2.runs r₂)
    second.post.2 x type hx (still.grows s htype r)
  refine ⟨p, n, hp, hn, ?_⟩
  have below : Below fails.2.size [type, p, n] := below_cons.2 ⟨r htype, below_cons.2
    ⟨below_get? (r₂.below first.post.1) x p hp, below_cons.2
      ⟨below_get? second.post.1 x n hn, below_nil⟩⟩⟩
  have whole : Leaves Runs fails.2 (unionOf [type, p, n]) _ := safe_unionOf second.sound below
  have parts : Leaves Runs (unionOf [type, p, n] fails.2).2 (unionOf [p, n]) _ :=
    safe_unionOf whole.sound (whole.related.below (below_cons.1 below).2)
  have g := parts.related.toGrows
  have isWhole := second.sound.isUnion_unionOf below g
  have isParts := whole.sound.isUnion_unionOf (whole.related.below (below_cons.1 below).2) (.refl _)
  refine parts.sound.eq_of_unionMembers parts.post (g whole.post) ?_
  rw [isParts.unionMembers parts.sound, isWhole.unionMembers parts.sound]
  exact (absorbed.grows second.sound (whole.related.toGrows.trans g) below).symm

/-- The edges of `x && x === true || x === false` where `x` is a `boolean`. -/
theorem edges_lose_nothing_compound :
    let t := withLimits {}
    let env := ofList [("x", .boolean)]
    let is (value : TypeId) := Guard.simple "x" (.equals value) false
    let guard := Guard.or (.and (.simple "x" .truthy false) (is .true)) (is .false)
    let holds := env.apply guard t
    let fails := env.apply guard.negate holds.2
    t.Reachable ∧ env.Ordered ∧ env.get? "x" = some .boolean ∧ t.Still .boolean ∧
      fails.2.Untripped ∧ ∃ p n, holds.1.get? "x" = some p ∧ fails.1.get? "x" = some n ∧
        let all := unionOf [.boolean, p, n] fails.2
        (unionOf [p, n] all.2).1 = all.1 := by
  intro t env is guard holds fails
  have reachable : t.Reachable := .start {}
  have s := reachable.sound
  have still : t.Still .boolean := s.still_fixed (i := 5) rfl rfl
  have bound : env.get? "x" = some .boolean := rfl
  have henv : t.Has env := below_singleton.2 ⟨trivial, s.below_fixed rfl⟩
  have untripped : fails.2.depthError = none := by
    subst fails holds guard is env t
    cbv
  have ordered : env.Ordered := ordered_ofList _
  have hguard : t.Has guard :=
    ⟨⟨below_none, below_some.2 (s.below_fixed rfl)⟩, below_some.2 (s.below_fixed rfl)⟩
  have operands : ∀ id ∈ guard.operands, t.Still id := forall_mem_cons.2
    ⟨s.still_fixed (i := 11) rfl rfl, forall_mem_singleton.2 (s.still_fixed (i := 12) rfl rfl)⟩
  clear_value guard is env t
  exact ⟨reachable, ordered, bound, still, untripped,
    reachable.edges_lose_nothing henv ordered hguard operands bound still untripped⟩

end GradualTyping
