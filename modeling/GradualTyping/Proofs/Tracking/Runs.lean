/-
# Following a variable through a whole check

An observer is a computation that is run after every statement.  Where what is known of a
variable lies in a region, an observer that does nothing in such states is not noticed: the
checks with it and without it do the same (`Checks.follows_observing`).  So every state
after a statement is such a state.
-/

import GradualTyping.Proofs.Tracking.Statements

namespace GradualTyping

open TypeTable List Checking

variable {x : String} {R : Region} {s s' : CheckState} {t t' : TypeTable} {c c' : Checks}
variable {settings : Settings} {values : List (String × TypeId)}

theorem leavesBlock_of_mem {body : List Stmt} {st : Stmt} (h : st ∈ body)
    (hst : st.kind.leaves = true) : leavesBlock body = true := by
  induction body with
  | nil => cases h
  | cons st' body ih =>
    rcases mem_cons.1 h with rfl | h
    · obtain ⟨kind, span⟩ := st
      exact Bool.or_eq_true_iff.2 (.inl hst)
    · exact Bool.or_eq_true_iff.2 (.inr (ih h))

namespace Point

variable {P : Point}

/-- A statement of a block may be checked where it stands. -/
theorem Amid.allows {body : List Stmt} (h : P.Amid x R (.declared x body) s t)
    (admits : P.Admits x R body) {st : Stmt} (hst : st ∈ body) :
    (ofState s x).Allows x R st.kind := by
  have avoids := admits.avoids st hst
  -- scopes that may not be opened inside the block may not be opened outside, or they clash
  -- with what the block enters
  have scope : ∀ {p : ScopePattern}, (ofState s x).ForbidsScope x R p →
      st.has p.pattern = false := by
    intro p hp
    have outside : P.ForbidsScope x R p → st.has p.pattern = false := fun hp =>
      avoids _ (.scope (hp.of_column rfl))
    cases hp with
    | clashes tracked => exact outside (.clashes tracked)
    | covers strict mutable =>
      rcases h.mutable_cases mutable with mutable | enters
      · exact outside (.covers strict mutable)
      · have clash : (introducesIn x true body && _) = false :=
          (Bool.or_eq_false_iff.1 (admits.scope (.clashes strict.1))).2
        rw [show introducesIn x true body = true from enters, Bool.true_and] at clash
        exact hasStmts_eq_false.1 clash st hst
    | functions strict unsteady =>
      rcases h.steady_cases unsteady with unsteady | ⟨mutable, enters⟩
      · exact outside (.functions strict unsteady)
      · have cover : (introducesIn x false body && _) = false :=
          admits.scope (.covers strict mutable)
        rw [show introducesIn x false body = true from enters, Bool.true_and] at cover
        exact hasStmts_eq_false.1 cover st hst
  have all : st.Avoids ((ofState s x).Forbids x R) := by
    intro p hp
    cases hp with
    | scope hp => exact scope hp
    | declares hR => exact avoids _ (.declares hR)
    | asks hR => exact avoids _ (.asks hR)
    | assigns h => exact avoids _ (.assigns (.inr (h.resolve_left fun h => nomatch h)))
  exact ⟨fun hp => all.whole hp, all.parts⟩

theorem At.markUnreachable (h : P.At x R s t) (st : Stands s t) :
    Steps s t markUnreachable markUnreachable fun _ => P.At x R :=
  .change st { st.below with env := st.below.env } ⟨h.column, h.breaks, h.env.markUnreachable, h.fixed⟩

/-- A `break` puts the environment aside. -/
theorem At.addBreak (h : P.At x R s t) (st : Stands s t) :
    Steps s t addBreak addBreak fun _ s' t' => P.After x R true s' t' := by
  refine .change st (keeps_addBreak st.sound s st.below).post.2
    ⟨h.column, h.env.markUnreachable, fun tracked => ⟨[s.env], ?_, Bool.noConfusion,
      fun env henv => ?_⟩⟩
  · rw [h.breaks tracked]
    cases P.breaks <;> rfl
  · obtain rfl := mem_singleton.1 henv
    exact ⟨st.below.env, h.env⟩

end Point

namespace Checking

variable {P : Point} (hc : c.Follows c' x R) (inner : R.assignable ∨ c.Follows c' x (.whole R.tracked))

include hc inner

/-- A statement stays inside the scope of its block. -/
theorem follows_checkStmt {body : List Stmt} {st : Stmt} (hst : st ∈ body)
    (admits : P.Admits x R body) (stands : Stands s t) (h : P.Amid x R (.declared x body) s t) :
    Steps s t (checkStmt c st) (checkStmt c' st) fun _ s' t' =>
      P.Amid x R (.declared x body) s' t' := by
  have fits : (Opening.declared x body).Fits R := ⟨admits.fits.assignable, admits.fits.stays⟩
  have allows := h.allows admits hst
  have enters : ∀ {mutable}, st.kind.introduces x mutable = true →
      introducesIn x mutable body = true := fun e => any_eq_true.2 ⟨st, hst, e⟩
  have back : ∀ {leaves : Bool} {s' t'}, t.Continues t' → (leaves = true → st.kind.leaves = true) →
      (Point.ofState s x).After x R leaves s' t' → P.Amid x R (.declared x body) s' t' :=
    fun g hl after => h.of_after fits stands g after fun e => leavesBlock_of_mem hst (hl e)
  have stay : ∀ {s' t'}, t.Continues t' → (Point.ofState s x).At x R s' t' →
      P.Amid x R (.declared x body) s' t' := fun g at' => h.of_at fits stands g at'
  have at0 := h.atPoint
  obtain ⟨kind, span⟩ := st
  replace allows : (Point.ofState s x).Allows x R kind := allows
  unfold checkStmt
  cases kind with
  | typeAlias name params body => exact .pure stands h
  | interface decl => exact .pure stands h
  | class_ decl =>
    exact (follows_checkClass hc inner span allows stands.sound s stands at0).mono
      fun _ _ _ _ g h1 => stay g h1.2
  | function f =>
    refine follows_checkFunctionDecl hc inner h fits stands (fun body hbody => ?_) fun e => ?_
    · have param : ¬R.assignable → (StmtKind.function f).opens (.params x) = false := fun hR =>
        (Bool.or_eq_false_iff.1 (allows.whole (.declares hR))).2
      exact ⟨allows.parts.function (Option.mem_toList.2 hbody),
        fun hp => StmtKind.opens_function (allows.whole (.scope hp)) hbody,
        fun hR => StmtKind.opens_function (param hR) hbody⟩
    · exact any_eq_true.2 ⟨_, hst, beq_iff_eq.2 e⟩
  | var kind name type init =>
    refine follows_checkVar hc h fits stands (fun e he => ?_) fun e => enters ?_
    · subst he
      exact allows.parts
    · exact Bool.and_eq_true_iff.2 ⟨beq_iff_eq.2 e, beq_self_eq_true _⟩
  | expr e =>
    refine (hc.plain allows.parts s stands at0).bind fun _ s1 t1 st1 g1 h1 => ?_
    refine (h1.2.calmWith st1 (Guard.safe_ofAssertion? safe_guardFacts st1.sound).weaken
      (leads_ofAssertion? x)).bind fun guard s2 t2 st2 g2 ⟨hguard, htests, h2⟩ => ?_
    cases guard with
    | none => exact .pure st2 (stay (g1.trans g2) h2)
    | some guard =>
      refine (h2.assume st2 (below_some.1 hguard) ((htests guard rfl).mono ?_)).mono
        fun _ _ _ _ g3 h3 => stay (g1.trans (g2.trans g3)) h3
      exact fun _ hask _ => Classical.not_not.1 fun e =>
        absurd hask (by rw [allows.whole (.asks e)]; decide)
  | return_ value =>
    refine (follows_returnType hc (fun e he => ?_) span s stands at0).bind
      fun type s1 t1 st1 g1 h1 => ?_
    · subst he
      exact allows.parts
    refine (h1.2.calm st1 (keeps_addReturn st1.sound h1.1) does_addReturn).bind
      fun _ s2 t2 st2 g2 h2 => ?_
    exact (h2.2.markUnreachable st2).mono fun _ _ _ _ g3 h3 => stay (g1.trans (g2.trans g3)) h3
  | if_ cond yes no =>
    exact (follows_checkIf hc _ allows stands at0).mono fun _ _ _ _ g => back g id
  | switch subject cases =>
    exact (follows_checkSwitch hc _ allows stands at0).mono fun _ _ _ _ g h => stay g h
  | while_ cond body =>
    exact (follows_checkWhile hc _ allows stands at0).mono fun _ _ _ _ g h => stay g h
  | block body =>
    exact (hc.block _ (allows.admits rfl (allows.parts.block rfl (.head _)) id) stands at0).mono
      fun _ _ _ _ g => back g id
  | throw_ value =>
    refine (hc.plain allows.parts s stands at0).bind fun _ s1 t1 st1 g1 h1 => ?_
    exact (h1.2.markUnreachable st1).mono fun _ _ _ _ g2 h2 => stay (g1.trans g2) h2
  | break_ => exact (at0.addBreak stands).mono fun _ _ _ _ g => back g fun _ => rfl

/-! ### Observers -/

/-- Check statements in order, with an observer after each. -/
def checkInOrderWith (after : CheckM Unit) (c : Checks) : List Stmt → CheckM Unit
  | [] => return ()
  | s :: rest => do
    let mark ← errorCount
    checkStmt c s
    after
    if ← isAbandoned mark s.span then return ()
    recordFrom .statement [(← get).current] s.span
    checkInOrderWith after c rest

/-- Check the statements of a block with an observer. -/
def checkStatementsWith (after : CheckM Unit) (c : Checks) (block : List Stmt) : CheckM Unit := do
  let span := (block.head?.map (·.span)).getD {}
  let mark ← errorCount
  declare block span
  if ← isAbandoned mark span then return ()
  checkInOrderWith after c block

omit hc inner in
theorem checkInOrderWith_nothing (c : Checks) (block : List Stmt) :
    checkInOrderWith (pure ()) c block = checkInOrder c block := by
  induction block with
  | nil => rfl
  | cons s rest ih => simp only [checkInOrderWith, checkInOrder, ih, pure_bind]

end Checking

/-- The checks of programs with the given nesting, with an observer after each
statement. -/
def Checks.observing (after : CheckM Unit) : Nat → Checks
  | 0 => inert
  | n + 1 =>
    { expr := fun e expected => checkExpr (observing after n) e expected
      statements := fun block => checkStatementsWith after (observing after n) block }

theorem Checks.observing_nothing (n : Nat) : observing (pure ()) n = within n := by
  induction n with
  | zero => rfl
  | succ n ih =>
    rw [observing, within, ih]
    congr 1
    funext block
    simp only [checkStatementsWith, checkStatements,
      checkInOrderWith_nothing]

/-- An observer that does nothing is not noticed. -/
theorem Steps.skip {α : Type} {o : CheckM Unit} {k : Unit → CheckM α} {d : CheckM α}
    {Q : α → CheckState → TypeTable → Prop} (ho : o s t = (((), s), t)) (h : Steps s t (k ()) d Q) :
    Steps s t (o >>= k) d Q := by
  have same : (o >>= k) s t = k () s t := by
    show k (o s t).1.1 (o s t).1.2 (o s t).2 = _
    rw [ho]
  exact ⟨same.trans h.same, same ▸ h.stands, same ▸ h.continues, same ▸ h.strict, same ▸ h.post⟩

/-- An observer does nothing where what is known of a variable lies in a region. -/
def Quiet (x : String) (R : Region) (after : CheckM Unit) : Prop :=
  ∀ s t, Stands s t → InRegion x R (s.binding? x) t s.env → after s t = (((), s), t)

namespace Checking

variable {P : Point} {after : CheckM Unit}

section Observed

variable (hc : c.Follows c' x R) (inner : R.assignable ∨ c.Follows c' x (.whole R.tracked))
  (quiet : Quiet x R after)

include hc inner quiet

theorem follows_checkInOrder {body rest : List Stmt} (hrest : rest ⊆ body)
    (admits : P.Admits x R body) (st : Stands s t) (h : P.Amid x R (.declared x body) s t) :
    Steps s t (checkInOrderWith after c rest) (checkInOrder c' rest) fun _ s' t' =>
      P.Amid x R (.declared x body) s' t' := by
  have fits : (Opening.declared x body).Fits R := ⟨admits.fits.assignable, admits.fits.stays⟩
  induction rest generalizing s t with
  | nil => exact .pure st h
  | cons stmt rest ih =>
    obtain ⟨hstmt, hrest⟩ := cons_subset.1 hrest
    refine (h.calm fits st (growing_errorCount st.sound) does_errorCount).bind
      fun mark s1 t1 st1 _ h1 => ?_
    refine (follows_checkStmt hc inner hstmt admits st1 h1.2).bind fun _ s2 t2 st2 _ h2 => ?_
    refine .skip (quiet s2 t2 st2 h2.env) ?_
    refine (h2.calm fits st2 (growing_isAbandoned st2.sound) does_isAbandoned).bind
      fun abandoned s3 t3 st3 _ h3 => ?_
    split
    · exact .pure st3 h3.2
    · refine .get ?_
      refine (h3.2.calm fits st3 (keeps_recordFrom st3.sound _ _ _) (does_recordFrom _ _ _)).bind
        fun _ s4 t4 st4 _ h4 => ih hrest st4 h4.2

theorem follows_checkStatements {body : List Stmt} (admits : P.Admits x R body) (st : Stands s t)
    (h : P.Amid x R (.block x body) s t) :
    Steps s t (checkStatementsWith after c body) (checkStatements c' body) fun _ s' t' =>
      P.Amid x R (.block x body) s' t' := by
  have fits := admits.fits
  have fits' : (Opening.declared x body).Fits R := ⟨fits.assignable, fits.stays⟩
  have leave : ∀ {s' t'}, P.Amid x R (.declared x body) s' t' → P.Amid x R (.block x body) s' t' :=
    fun h => h.relax rfl rfl fun e => nomatch e
  refine (h.calm fits st (growing_errorCount st.sound) does_errorCount).bind
    fun mark s1 t1 st1 _ h1 => ?_
  refine (follows_declare _ st1 fits h1.2).bind fun _ s2 t2 st2 _ h2 => ?_
  refine (h2.calm fits' st2 (growing_isAbandoned st2.sound) does_isAbandoned).bind
    fun abandoned s3 t3 st3 _ h3 => ?_
  split
  · exact .pure st3 (leave h3.2)
  · exact (follows_checkInOrder hc inner quiet (List.Subset.refl body) admits st3 h3.2).mono
      fun _ _ _ _ _ h => leave h

end Observed

end Checking

namespace Checks

variable {after : CheckM Unit}

theorem follows_inert : inert.Follows inert x R :=
  ⟨fun _ _ _ st h => .pure st ⟨st.sound.below_any, h⟩, fun _ _ _ _ _ st h => .pure st h⟩

/-- **An observer that does nothing in a region is not noticed**, whatever it does
elsewhere. -/
theorem follows_observing (quiet : Quiet x R after) (inner : R.assignable ∨ Quiet x (.whole R.tracked) after)
    (n : Nat) : (observing after n).Follows (within n) x R := by
  -- in a region that is not open to assignments, the bodies of functions are followed in
  -- the region of all types
  have step : ∀ {R : Region} {n : Nat}, Quiet x R after →
      (observing after n).Follows (within n) x R →
      (R.assignable ∨ (observing after n).Follows (within n) x (.whole R.tracked)) →
      (observing after (n + 1)).Follows (within (n + 1)) x R := fun quiet ih inner =>
    ⟨fun he hexpected => follows_checkExpr ih inner he hexpected,
      fun _ _ _ _ admits st h => follows_checkStatements ih inner quiet admits st h⟩
  induction n with
  | zero => exact follows_inert
  | succ n ih =>
    refine step quiet ih (inner.imp id fun quiet => ?_)
    clear ih
    induction n with
    | zero => exact follows_inert
    | succ n ih => exact step quiet ih (.inl trivial)

/-- The checks of programs follow every variable through every region. -/
theorem follows_within (x : String) (R : Region) (n : Nat) : (within n).Follows (within n) x R := by
  have quiet : ∀ R, Quiet x R (pure ()) := fun _ _ _ _ _ => rfl
  have h := follows_observing (quiet R) (.inr (quiet _)) n
  rwa [observing_nothing] at h

end Checks

/-! ### Whole programs -/

/-- The point before a unit. -/
def Point.outermost : Point where
  column := []
  breaks := []

/-- The state before a unit. -/
theorem Checking.start_eq (t : TypeTable) :
    start settings values t =
      ({ requireExhaustiveSwitch := settings.requireExhaustiveSwitch
         globals := values.reverse ++ (builtinValues t).1 }, (builtinValues t).2) :=
  bind_of_eq (Prod.eta _).symm

/-- Checks that follow a variable follow it through a unit. -/
theorem Checks.Follows.unit (hc : c.Follows c' x R) {body : List Stmt}
    (admits : Point.outermost.Admits x R body) (st : Stands s t) (scopes : s.scopes = [{}])
    (env : s.env = {}) (breaks : s.breaks = []) :
    Steps s t (do recordFrom .entry [] {}; c.statements body)
      (do recordFrom .entry [] {}; c'.statements body) fun _ _ _ => True := by
  have amid : Point.outermost.Amid x R (.block x body) s t := by
    refine ⟨⟨([], none), by rw [CheckState.column, scopes]; rfl, .none rfl⟩, env ▸ .empty,
      fun _ => ?_⟩
    exact ⟨[], breaks, fun _ => rfl, fun _ h => absurd h not_mem_nil⟩
  have recorded := amid.calm admits.fits st (keeps_recordFrom st.sound .entry [] {})
    (does_recordFrom _ _ _)
  exact recorded.bind fun _ s1 t1 st1 _ h1 =>
    (hc.statements _ admits st1 h1.2).mono fun _ _ _ _ _ _ => trivial

/-- Where nothing is followed, nothing is forbidden. -/
theorem Point.not_forbids {P : Point} (loose : P.fixed = none) {p : Pattern} :
    ¬P.Forbids x (.whole False) p := by
  intro h
  cases h with
  | scope h =>
    cases h with
    | clashes tracked => exact tracked
    | covers strict => exact strict.1
    | functions strict => exact strict.1
  | declares h => exact h trivial
  | asks h => exact h trivial
  | assigns h => exact h.elim (by simp [loose]) fun h => h trivial

/-- A step, as a computation on the table. -/
theorem Steps.leaves {α : Type} {a a' : CheckM α} {Q : α → CheckState → TypeTable → Prop}
    (h : Steps s t a a' Q) : Keeps Continues t (a.run s) fun t' p => Stands p.2 t' ∧ Q p.1 p.2 t' :=
  ⟨h.stands.sound, h.continues, h.stands, h.post⟩

/-- **Checking a unit grows the table**, whatever it does to its variables. -/
theorem growing_checkProgram (sound : t.Sound) (rest : t.evaluating = [])
    (h : t.Has values) {unit : CodeUnit} :
    Keeps Continues t (checkProgram settings values unit) fun _ _ => True := by
  refine Tabled.bind (keeps_start sound h) fun t1 start sound1 r1 h1 => ?_
  extract_lets walk
  have admits : Point.outermost.Admits "" (.whole False) unit.statements :=
    ⟨fun _ _ _ hp => absurd hp (Point.not_forbids rfl),
      fun hp => absurd (.scope hp) (Point.not_forbids rfl)⟩
  have walked := (Checks.follows_within "" (.whole False) (heightStmts unit.statements)).unit
    admits ⟨sound1, r1.evaluating.trans rest, h1.1⟩ h1.2.1 h1.2.2.1 h1.2.2.2
  exact walked.leaves.bind fun t2 _ sound2 _ _ => .pure sound2 trivial

/-- Checking a condition by itself grows the table. -/
theorem growing_checkCondition (sound : t.Sound) (rest : t.evaluating = [])
    (h : t.Has values) {cond : Expr} :
    Keeps Continues t (checkCondition settings values cond) fun _ _ => True := by
  refine Tabled.bind (keeps_start sound h) fun t1 start sound1 r1 h1 => ?_
  extract_lets walk
  have here : (Point.ofState start "").At "" (.whole False) start t1 :=
    ⟨rfl, fun _ => rfl, ⟨False.elim, False.elim⟩, fun _ e => nomatch e⟩
  have plain := (Checks.follows_within "" (.whole False) cond.height).plain (e := cond)
    (fun _ hp => absurd hp (Point.not_forbids rfl)) _ ⟨sound1, r1.evaluating.trans rest, h1.1⟩ here
  have guards : Keeps Continues t1 (walk.run start) fun _ _ => True := by
    unfold walk
    rw [StateT.run_bind]
    refine plain.leaves.bind fun t2 p sound2 _ hp => ?_
    have found : Keeps Continues t2 (do
        let guard ← Guard.ofCondition? guardFacts cond
        let assertion ← Guard.ofAssertion? guardFacts cond
        return { type := p.1, guard, assertion } : CheckM ConditionFacts) fun _ _ => True :=
      (Guard.safe_ofCondition? safe_guardFacts sound2).weaken.bind
        fun t3 _ s3 _ _ => (Guard.safe_ofAssertion? safe_guardFacts s3).weaken.bind
          fun t4 _ s4 _ _ => .pure s4 trivial
    exact (found.run hp.1.below).ignore
  exact guards.map fun _ _ _ _ _ => trivial

end GradualTyping
