/-
# Points of a program

To follow a variable is to know three things at each point: what the scopes say of its
name, what has been put aside at breaks, and that its type lies in a region.  A `Point`
fixes the first two; the checks of expressions stay at their point (`Point.At`), and those
of blocks come back to it.

Inside a block the innermost scope may come to hold a variable of the name, and has put the
type from outside aside then.  `Point.Amid` is the invariant of the statements of a block,
and of entering the parameters of a function.
-/

import GradualTyping.Proofs.Tracking.Regions

namespace GradualTyping

open TypeTable List Checking TypeEnv

variable {x : String} {R : Region} {s s' : CheckState} {t t' : TypeTable}

/-! ### What the scopes say of a name -/

namespace Scope

/-- The locals of one name. -/
def locals (scope : Scope) (x : String) : List LocalVariable :=
  (scope.bindings.filter (·.1 = x)).map (·.2)

/-- What a scope says of a name: its locals, and the type that its entry has put
aside. -/
def entry (scope : Scope) (x : String) : List LocalVariable × Option (Option TypeId) :=
  (scope.locals x, scope.shadowed.reverse.lookup x)

theorem get?_eq_locals (scope : Scope) (x : String) : scope.get? x = (scope.locals x).head? := by
  unfold get? locals
  induction scope.bindings with
  | nil => rfl
  | cons b bindings ih => grind

/-- Changing the locals of a name in place. -/
theorem variables_map (f : LocalVariable → LocalVariable) (name : String)
    (bindings : List (String × LocalVariable)) :
    ((bindings.map fun p => if p.1 = name then (name, f p.2) else p).filter (·.1 = x)).map (·.2) =
      if x = name then ((bindings.filter (·.1 = x)).map (·.2)).map f
      else (bindings.filter (·.1 = x)).map (·.2) := by
  induction bindings with
  | nil => split <;> rfl
  | cons p bindings ih =>
    by_cases hp : p.1 = name
    · by_cases hx : x = name
      · simp_all
      · have hx' : ¬name = x := fun h => hx h.symm
        simp_all
    · by_cases hx : x = name
      · have hp' : ¬p.1 = x := fun h => hp (h.trans hx)
        simp_all
      · by_cases hp' : p.1 = x <;> simp_all

theorem entry_insert (scope : Scope) (name : String) (b : LocalVariable)
    (previous : Option TypeId) :
    (scope.insert name b previous).entry x =
      if x = name then
        if scope.get? x = none then ([b], (scope.entry x).2.or (some previous))
        else ((scope.locals x).map fun _ => b, (scope.entry x).2)
      else scope.entry x := by
  unfold insert
  split
  · next h =>
    unfold entry locals
    rw [reverse_cons, lookup_append, filter_append]
    by_cases hx : x = name
    · subst hx
      have none_of : scope.bindings.filter (·.1 = x) = [] := by
        rwa [get?_eq_locals, head?_eq_none_iff, locals, map_eq_nil_iff] at h
      simp [h, none_of]
    · have hx' : ¬name = x := fun h => hx h.symm
      simp [hx, hx', lookup_cons, beq_eq_false_iff_ne.2 hx]
  · next v h =>
    unfold entry locals
    dsimp only
    rw [variables_map (fun _ => b)]
    by_cases hx : x = name
    · subst hx
      simp [h]
    · simp [hx]

theorem below_variables {n : Nat} {scope : Scope} (h : Below n scope) (x : String) :
    Below n (scope.locals x) := by
  intro b hb
  obtain ⟨p, hp, rfl⟩ := mem_map.1 hb
  exact (h.1 p (mem_filter.1 hp).1).2

theorem below_shadowed {n : Nat} {scope : Scope} (h : Below n scope) {put : Option TypeId}
    (hput : scope.shadowed.reverse.lookup x = some put) : Below n put := by
  have reversed : Below n scope.shadowed.reverse := fun p hp => h.2 p (mem_reverse.1 hp)
  exact reversed.lookup x put hput

theorem entry_redeclare (scope : Scope) (name : String) (type : TypeId) :
    (scope.redeclare name type).entry x =
      if x = name then ((scope.locals x).map ({ · with declared := type }), (scope.entry x).2)
      else scope.entry x := by
  unfold redeclare entry locals
  dsimp only
  rw [variables_map ({ · with declared := type })]
  split <;> rfl

end Scope

namespace CheckState

/-- What all scopes say of a name. -/
def column (s : CheckState) (x : String) : List (List LocalVariable × Option (Option TypeId)) :=
  s.scopes.map (·.entry x)

theorem binding?_eq_column (s : CheckState) (x : String) :
    s.binding? x = ((s.column x).flatMap (·.1)).head? := by
  unfold binding? column
  induction s.scopes with
  | nil => rfl
  | cons scope scopes ih =>
    rw [findSome?_cons, map_cons, flatMap_cons, head?_append, ← ih,
      Scope.get?_eq_locals]
    show _ = ((scope.locals x).head?).or _
    cases (scope.locals x).head? <;> rfl

theorem column_of_ne {name : String} (hne : x ≠ name) (type : TypeId) (scopes : List Scope) :
    (redeclareIn name type scopes).map (·.entry x) = scopes.map (·.entry x) := by
  induction scopes with
  | nil => rfl
  | cons scope outer ih =>
    unfold redeclareIn
    split
    · rw [map_cons, map_cons, Scope.entry_redeclare, if_neg hne]
    · rw [map_cons, map_cons, ih]

end CheckState

/-! ### Points -/

/-- What stays the same while expressions are checked: what the scopes say of a name and
what has been put aside at breaks. -/
structure Point where
  column : List (List LocalVariable × Option (Option TypeId))
  breaks : List (List TypeEnv)
  /-- The type of the name in the environment, where that stays the same too. -/
  fixed : Option (Option TypeId) := none

/-- A region that tells types apart and is open to assignments. -/
def Region.Strict (R : Region) : Prop := R.tracked ∧ R.assignable ∧ ∃ d t type, ¬R.Has d t type

namespace Point

/-- The locals of the name, innermost first. -/
def locals (P : Point) : List LocalVariable := P.column.flatMap (·.1)

/-- The variable of the name. -/
def bound (P : Point) : Option LocalVariable := P.locals.head?

/-- One of the locals of the name may be assigned to. -/
def Mutable (P : Point) : Prop := ∃ b ∈ P.locals, b.mutable = true

/-- Each scope has one variable of the name at most, and that of the innermost scope may be
assigned to if any of them may. -/
structure Steady (P : Point) : Prop where
  single : ∀ entry ∈ P.column, entry.1.length ≤ 1
  innermost : P.Mutable → ∀ b, P.bound = some b → b.mutable = true

/-- The point where nothing is known of the type. -/
def loose (P : Point) : Point := { P with fixed := none }

/-- The state of a check is at the point. -/
structure At (x : String) (R : Region) (P : Point) (s : CheckState) (t : TypeTable) : Prop where
  column : s.column x = P.column
  breaks : R.tracked → s.breaks = P.breaks
  env : InRegion x R P.bound t s.env
  fixed : ∀ type, P.fixed = some type → s.env.get? x = type

/-- An answer of the table is given, at the same point. -/
abbrev Answers {α : Type} [Bounded α] (x : String) (R : Region) (P : Point) (a : α) (s : CheckState)
    (t : TypeTable) : Prop :=
  Below t.size a ∧ P.At x R s t

/-- Scopes that may not be opened at a point. -/
inductive ForbidsScope (x : String) (R : Region) (P : Point) : ScopePattern → Prop
  | clashes : R.tracked → ForbidsScope x R P (.clashes x)
  | covers : R.Strict → P.Mutable → ForbidsScope x R P (.covers x)
  | functions : R.Strict → ¬P.Steady → ForbidsScope x R P .functions

/-- What may not stand in a program that is checked at a point. -/
inductive Forbids (x : String) (R : Region) (P : Point) : Pattern → Prop
  | scope {p : ScopePattern} : P.ForbidsScope x R p → Forbids x R P p.pattern
  | declares : ¬R.assignable → Forbids x R P (.declares x)
  | asks : ¬R.askable → Forbids x R P (.asks x)
  | assigns : (P.fixed.isSome = true ∨ ¬R.assignable) → Forbids x R P (.assigns x)

variable {P Q : Point}

theorem Steady.of_column (h : P.Steady) (same : Q.column = P.column) : Q.Steady := by
  obtain ⟨column, breaks, fixed⟩ := Q
  subst same
  exact ⟨h.single, h.innermost⟩

theorem ForbidsScope.of_column {p : ScopePattern} (h : Q.ForbidsScope x R p)
    (same : Q.column = P.column) : P.ForbidsScope x R p := by
  cases h with
  | clashes tracked => exact .clashes tracked
  | covers strict mutable =>
    refine .covers strict ?_
    unfold Mutable locals at mutable ⊢
    rwa [← same]
  | functions strict unsteady => exact .functions strict fun h => unsteady (h.of_column same)

/-- What is forbidden where nothing is known of the type is forbidden. -/
theorem Forbids.of_column {p : Pattern} (h : Q.Forbids x R p) (same : Q.column = P.column)
    (fixed : Q.fixed = none) : P.Forbids x R p := by
  cases h with
  | scope h => exact .scope (h.of_column same)
  | declares h => exact .declares h
  | asks h => exact .asks h
  | assigns h => exact .assigns (.inr (h.resolve_left fun h => by simp [fixed] at h))

theorem Forbids.loose {p : Pattern} (h : P.loose.Forbids x R p) : P.Forbids x R p :=
  h.of_column rfl rfl

namespace At

theorem binding? (h : P.At x R s t) : s.binding? x = P.bound := by
  rw [s.binding?_eq_column, h.column]
  rfl

theorem below_bound (h : P.At x R s t) (st : Stands s t) : t.Has P.bound :=
  h.binding? ▸ CheckState.below_binding? st.below x

theorem loose (h : P.At x R s t) : P.loose.At x R s t :=
  ⟨h.column, h.breaks, h.env, fun _ e => nomatch e⟩

/-- What leaves the locals alone stays at the point. -/
theorem alike (h : P.At x R s t) (st : Stands s t) (a : Alike s s') (g : t.Continues t') :
    P.At x R s' t' where
  column := by rw [CheckState.column, a.scopes]; exact h.column
  breaks tracked := a.breaks.trans (h.breaks tracked)
  env := a.env ▸ h.env.later st.sound g (h.below_bound st) st.below.env
  fixed type e := a.env ▸ h.fixed type e

/-- A calm computation stays at the point. -/
theorem calmWith {α : Type} {c : CheckM α} {K : TypeTable → α → Prop} {A : α → Prop}
    (h : P.At x R s t) (st : Stands s t) (k : Keeps Continues t c K) (hc : Leads Alike c A) :
    Steps s t c c fun a s' t' => K t' a ∧ A a ∧ P.At x R s' t' :=
  (Steps.calm st k hc).mono fun _ _ _ _ g q => ⟨q.1, q.2.1, h.alike st q.2.2 g⟩

theorem calm {α : Type} {c : CheckM α} {K : TypeTable → α → Prop} (h : P.At x R s t)
    (st : Stands s t) (k : Keeps Continues t c K) (hc : Calm c) :
    Steps s t c c fun a s' t' => K t' a ∧ P.At x R s' t' :=
  (h.calmWith st k hc).mono fun _ _ _ _ _ q => ⟨q.1, q.2.2⟩

/-- An operation on the table stays at the point. -/
theorem lift {α : Type} {o : TableM α} {K : TypeTable → α → Prop} (h : P.At x R s t)
    (st : Stands s t) (k : Keeps Runs t o K) :
    Steps s t (liftM o : CheckM α) (liftM o) fun a s' t' => K t' a ∧ P.At x R s' t' :=
  h.calm st k.weaken.lift (.lift o)

theorem setEnv {env : TypeEnv} (h : P.loose.At x R s t) (st : Stands s t) (below : t.Has env)
    (henv : InRegion x R P.bound t env) (fixed : ∀ type, P.fixed = some type → env.get? x = type) :
    Steps s t (setEnv env) (setEnv env) fun _ => P.At x R :=
  .change st { st.below with env := below } ⟨h.column, h.breaks, henv, fixed⟩

/-- The edge of a condition on which a guard holds. -/
theorem assume (h : P.At x R s t) (st : Stands s t) {guard : Guard} (hguard : t.Has guard)
    (hx : guard.Tests x fun test => test.asksType = true → R.askable) :
    Steps s t (assume guard) (assume guard) fun _ s' t' =>
      P.loose.At x R s' t' := by
  refine .get ?_
  have edges := InRegion.apply st.sound hguard hx (h.below_bound st) st.below.env h.env
  exact (h.loose.lift st edges).bind fun env s1 t1 st1 g1 ⟨⟨below, henv⟩, h1⟩ =>
    setEnv (P := P.loose) h1 st1 below henv fun _ e => nomatch e

end At

end Point

/-! ### Scopes that are opened at a point -/

/-- Put environments aside at breaks of the innermost loop or switch, if there is one. -/
def addBreaks : List (List TypeEnv) → List TypeEnv → List (List TypeEnv)
  | [], _ => []
  | frame :: outer, added => (frame ++ added) :: outer

theorem addBreaks_nil (breaks : List (List TypeEnv)) : addBreaks breaks [] = breaks := by
  cases breaks with
  | nil => rfl
  | cons frame outer => rw [addBreaks, append_nil]

theorem addBreaks_append (breaks : List (List TypeEnv)) (l l' : List TypeEnv) :
    addBreaks (addBreaks breaks l) l' = addBreaks breaks (l ++ l') := by
  cases breaks with
  | nil => rfl
  | cons frame outer => rw [addBreaks, addBreaks, addBreaks, append_assoc]

/-- Bringing back what was put aside: of several types for a name the first one counts. -/
theorem get?_foldl_restore (shadowed : List (String × Option TypeId)) (env : TypeEnv) :
    (shadowed.foldl restore env).get? x =
      (shadowed.reverse.lookup x).getD (env.get? x) := by
  induction shadowed generalizing env with
  | nil => rfl
  | cons p shadowed ih =>
    have first : (restore env p).get? x = if x = p.1 then p.2 else env.get? x := by
      obtain ⟨name, previous⟩ := p
      cases previous with
      | none => exact get?_erase
      | some type => exact get?_insert env name type
    rw [foldl_cons, ih, first, reverse_cons, lookup_append]
    cases shadowed.reverse.lookup x with
    | some previous => rfl
    | none =>
      rw [Option.none_or]
      grind

theorem ordered_foldl_restore {shadowed : List (String × Option TypeId)} {env : TypeEnv}
    (h : env.Ordered) : (shadowed.foldl restore env).Ordered := by
  induction shadowed generalizing env with
  | nil => exact h
  | cons p shadowed ih =>
    obtain ⟨name, previous⟩ := p
    cases previous with
    | none => exact ih h.erase
    | some type => exact ih (h.insert name type)

namespace Point

/-- What has been put aside since a point lies in the region, and there is none unless
control may leave by a `break`. -/
def Breaks (x : String) (R : Region) (P : Point) (leaves : Bool) (s : CheckState)
    (t : TypeTable) : Prop :=
  R.tracked → ∃ added, s.breaks = addBreaks P.breaks added ∧ (leaves = false → added = []) ∧
    ∀ env ∈ added, Below t.size env ∧ InRegion x R P.bound t env

/-- The state of a check is back at a point, with breaks put aside. -/
structure After (x : String) (R : Region) (P : Point) (leaves : Bool) (s : CheckState)
    (t : TypeTable) : Prop where
  column : s.column x = P.column
  env : InRegion x R P.bound t s.env
  breaks : P.Breaks x R leaves s t

end Point

/-- What a scope may do to a name. -/
structure Opening where
  /-- It may enter a variable that may be assigned to, or a constant. -/
  enters (mutable : Bool) : Bool
  /-- Control may leave it by a `break`. -/
  leaves : Bool
  /-- It has entered a variable. -/
  entered : Bool := false

/-- The scope of a block. -/
def Opening.block (x : String) (body : List Stmt) : Opening where
  enters mutable := introducesIn x mutable body
  leaves := leavesBlock body

/-- The scope of the parameters of a function. -/
def Opening.params (x : String) (params : List Param) (rest : Option Param) : Opening where
  enters mutable := mutable && isParam x params rest
  leaves := false

/-- A scope may be opened in a region: one that enters the name is not left by a `break`. -/
structure Opening.Fits (o : Opening) (R : Region) : Prop where
  assignable {mutable : Bool} : o.enters mutable = true → R.assignable
  stays {mutable : Bool} : R.tracked → o.enters mutable = true → o.leaves = false

namespace Point

/-- What the innermost scope says of the name: nothing, or a variable that it has entered and
the type from before, which lies in the region outside. -/
inductive Entry (x : String) (R : Region) (P : Point) (o : Opening) (t : TypeTable) :
    List LocalVariable × Option (Option TypeId) → Prop
  | none : o.entered = false → Entry x R P o t ([], none)
  | some {b : LocalVariable} {put : Option TypeId} : o.enters b.mutable = true →
      (R.tracked → ∀ type, put = some type → ∃ v, P.bound = some v ∧ R.Has v.declared t type) →
      Entry x R P o t ([b], some put)

/-- The state of a check is inside a scope that was opened at a point. -/
structure Amid (x : String) (R : Region) (P : Point) (o : Opening) (s : CheckState)
    (t : TypeTable) : Prop where
  column : ∃ entry, s.column x = entry :: P.column ∧ P.Entry x R o t entry
  env : InRegion x R (s.binding? x) t s.env
  breaks : P.Breaks x R o.leaves s t

/-- The point of a state. -/
def ofState (s : CheckState) (x : String) : Point where
  column := s.column x
  breaks := s.breaks

variable {P : Point} {o : Opening} {leaves : Bool}

theorem bound_ofState : (ofState s x).bound = s.binding? x := (s.binding?_eq_column x).symm

theorem At.after (h : P.At x R s t) : P.After x R leaves s t :=
  ⟨h.column, h.env, fun tracked => ⟨[], by rw [addBreaks_nil, h.breaks tracked], fun _ => rfl,
    fun _ he => nomatch he⟩⟩

/-- Where control does not leave by a `break`, the check is at the point. -/
theorem After.atPoint (h : P.After x R leaves s t) (stays : R.tracked → leaves = false) :
    P.loose.At x R s t := by
  refine ⟨h.column, fun tracked => ?_, h.env, fun _ e => nomatch e⟩
  obtain ⟨added, breaks, none, -⟩ := h.breaks tracked
  rwa [none (stays tracked), addBreaks_nil] at breaks

theorem Breaks.later (h : P.Breaks x R leaves s t) (st : Stands s t) (g : t.Continues t')
    (hbound : t.Has P.bound) (same : s'.breaks = s.breaks) : P.Breaks x R leaves s' t' := by
  intro tracked
  obtain ⟨added, breaks, none, envs⟩ := h tracked
  refine ⟨added, same.trans breaks, none, fun env henv => ?_⟩
  obtain ⟨below, inside⟩ := envs env henv
  exact ⟨g below, inside.later st.sound g hbound below⟩

namespace Amid

/-- Nothing is entered yet. -/
theorem start (h : P.At x R s t) (hentered : o.entered = false) :
    P.Amid x R o { s with scopes := {} :: s.scopes } t where
  column := ⟨_, congrArg (([], none) :: ·) h.column, .none hentered⟩
  env := h.binding? ▸ h.env
  breaks tracked := ⟨[], by rw [addBreaks_nil, ← h.breaks tracked], fun _ => rfl,
    fun _ he => nomatch he⟩

theorem atPoint (h : P.Amid x R o s t) : (ofState s x).At x R s t :=
  ⟨rfl, fun _ => rfl, bound_ofState ▸ h.env, fun _ e => nomatch e⟩

/-- The scopes, with what the innermost one says of the name. -/
theorem scopes (h : P.Amid x R o s t) :
    ∃ scope outer, s.scopes = scope :: outer ∧ outer.map (·.entry x) = P.column ∧
      P.Entry x R o t (scope.entry x) := by
  obtain ⟨entry, column, hentry⟩ := h.column
  unfold CheckState.column at column
  match hs : s.scopes with
  | [] => simp [hs] at column
  | scope :: outer =>
    rw [hs, map_cons] at column
    obtain ⟨rfl, houter⟩ := List.cons.inj column
    exact ⟨scope, outer, rfl, houter, hentry⟩

/-- The variable outside the scope. -/
theorem below_bound (h : P.Amid x R o s t) (st : Stands s t) : t.Has P.bound := by
  obtain ⟨scope, outer, hscopes, houter, -⟩ := h.scopes
  have below : t.Has outer := (below_cons.1 (hscopes ▸ st.below.scopes)).2
  intro b hb
  obtain ⟨entry, hentry, hb⟩ := mem_flatMap.1 (mem_of_mem_head? hb)
  rw [← houter] at hentry
  obtain ⟨scope, hscope, rfl⟩ := mem_map.1 hentry
  exact Scope.below_variables (below scope hscope) x b hb

/-- What the scope says of the name stays right on later tables. -/
theorem later_column (h : P.Amid x R o s t) (st : Stands s t) (g : t.Continues t') :
    ∃ entry, s.column x = entry :: P.column ∧ P.Entry x R o t' entry := by
  obtain ⟨scope, outer, hscopes, houter, hentry⟩ := h.scopes
  refine ⟨scope.entry x, by rw [CheckState.column, hscopes, map_cons, houter], ?_⟩
  have below : t.Has scope := (below_cons.1 (hscopes ▸ st.below.scopes)).1
  generalize he : scope.entry x = entry at hentry
  cases hentry with
  | none hentered => exact .none hentered
  | some henters hput =>
    refine .some henters fun tracked type htype => ?_
    obtain ⟨v, hv, has⟩ := hput tracked type htype
    have hlookup := congrArg Prod.snd he
    exact ⟨v, hv, R.later st.sound g (h.below_bound st v hv)
      (Scope.below_shadowed below hlookup type htype) has⟩

theorem binding?_of_none (h : s.column x = ([], none) :: P.column) : s.binding? x = P.bound := by
  rw [s.binding?_eq_column, h]
  rfl

theorem binding?_of_some {b : LocalVariable} {put : Option (Option TypeId)}
    (h : s.column x = ([b], put) :: P.column) : s.binding? x = some b := by
  rw [s.binding?_eq_column, h]
  rfl

section

variable (h : P.Amid x R o s t)
variable {name : String} {type : TypeId}
include h

/-- The variable of the name is that of the point, unless the scope has entered one. -/
theorem bound_cases : s.binding? x = P.bound ∨ ∃ mutable, o.enters mutable = true := by
  obtain ⟨entry, column, none | ⟨henters, -⟩⟩ := h.column
  · exact .inl (binding?_of_none column)
  · exact .inr ⟨_, henters⟩

/-- The scope has a variable that may be assigned to only if it enters one, or there is one
outside. -/
theorem mutable_cases (mutable : (ofState s x).Mutable) : P.Mutable ∨ o.enters true = true := by
  obtain ⟨b, hb, hm⟩ := mutable
  obtain ⟨entry, column, hentry⟩ := h.column
  have hb : b ∈ (entry :: P.column).flatMap (·.1) := column ▸ hb
  rcases mem_append.1 (flatMap_cons ▸ hb) with hb | hb
  · cases hentry with
    | none => cases hb
    | some henters =>
      obtain rfl := mem_singleton.1 hb
      exact .inr (hm ▸ henters)
  · exact .inl ⟨b, hb, hm⟩

/-- The scope is not steady only if the point is not, or it enters a constant in the scope of
a variable that may be assigned to. -/
theorem steady_cases (unsteady : ¬(ofState s x).Steady) :
    ¬P.Steady ∨ P.Mutable ∧ o.enters false = true := by
  refine Classical.byContradiction fun hcontra => ?_
  obtain ⟨steady, hcover⟩ := not_or.1 hcontra
  have steady := Classical.not_not.1 steady
  obtain ⟨entry, column, hentry⟩ := h.column
  have locals : (ofState s x).locals = entry.1 ++ P.locals := by
    show (s.column x).flatMap (·.1) = _
    rw [column, flatMap_cons]
    rfl
  refine unsteady ⟨?_, ?_⟩
  · show ∀ entry ∈ s.column x, _
    rw [column]
    refine forall_mem_cons.2 ⟨?_, steady.single⟩
    cases hentry with
    | none => exact Nat.zero_le 1
    | some => exact Nat.le_refl 1
  · cases hentry with
    | none =>
      unfold Mutable bound
      rw [locals]
      exact steady.innermost
    | @some v put henters hput =>
      rintro ⟨b, hb, hm⟩ b' hb'
      rw [bound, locals] at hb'
      obtain rfl : v = b' := Option.some.inj hb'
      cases hv : v.mutable with
      | true => rfl
      | false =>
        rw [locals] at hb
        rcases mem_append.1 hb with hb | hb
        · obtain rfl := mem_singleton.1 hb
          exact hv.symm.trans hm
        · exact absurd ⟨⟨b, hb, hm⟩, hv ▸ henters⟩ hcover

/-- A statement that comes back to the point of its state stays inside the scope. -/
theorem of_after {leaves' : Bool} (fits : o.Fits R) (st : Stands s t)
    (g : t.Continues t') (after : (ofState s x).After x R leaves' s' t')
    (hl : leaves' = true → o.leaves = true) : P.Amid x R o s' t' where
  column := by
    obtain ⟨entry, column, hentry⟩ := h.later_column st g
    exact ⟨entry, after.column.trans column, hentry⟩
  env := by
    have same : s'.binding? x = (ofState s x).bound := by
      rw [s'.binding?_eq_column, after.column]
      rfl
    exact same ▸ after.env
  breaks tracked := by
    obtain ⟨added, breaks, none, envs⟩ := h.breaks tracked
    obtain ⟨added', breaks', none', envs'⟩ := after.breaks tracked
    refine ⟨added ++ added', ?_, fun e => ?_, fun env henv => ?_⟩
    · rw [breaks', ← addBreaks_append, ← breaks]
      rfl
    · have e' : leaves' = false := Bool.eq_false_iff.2 fun h' => by simp [hl h'] at e
      rw [none e, none' e', append_nil]
    · rcases mem_append.1 henv with henv | henv
      · obtain ⟨below, inside⟩ := envs env henv
        exact ⟨g below, inside.later st.sound g (h.below_bound st) below⟩
      · rcases h.bound_cases with same | ⟨mutable, henters⟩
        · exact (bound_ofState.trans same) ▸ envs' env henv
        · -- a scope that enters the name is not left by a `break`
          have e' : leaves' = false := by
            refine Bool.eq_false_iff.2 fun h' => ?_
            exact absurd (hl h') (by rw [fits.stays tracked henters]; decide)
          rw [none' e'] at henv
          cases henv

theorem of_at (fits : o.Fits R) (st : Stands s t) (g : t.Continues t')
    (back : (ofState s x).At x R s' t') : P.Amid x R o s' t' :=
  have after : (ofState s x).After x R false s' t' := back.after
  h.of_after fits st g after fun e => nomatch e

theorem alike (fits : o.Fits R) (st : Stands s t) (a : Alike s s')
    (g : t.Continues t') : P.Amid x R o s' t' :=
  h.of_at fits st g (h.atPoint.alike st a g)

/-- Of what has been entered less may be known. -/
theorem relax {o' : Opening} (enters : o'.enters = o.enters)
    (leaves : o'.leaves = o.leaves) (entered : o'.entered = true → o.entered = true) :
    P.Amid x R o' s t := by
  obtain ⟨entry, column, hentry⟩ := h.column
  refine ⟨⟨entry, column, ?_⟩, h.env, leaves ▸ h.breaks⟩
  cases hentry with
  | none hentered =>
    exact .none (Bool.eq_false_iff.2 fun e => absurd (entered e) (by rw [hentered]; decide))
  | some henters hput => exact .some (enters ▸ henters) hput

/-- A calm computation stays inside the scope. -/
theorem calm {α : Type} {c : CheckM α} {K : TypeTable → α → Prop}
    (fits : o.Fits R) (st : Stands s t) (k : Keeps Continues t c K) (hc : Calm c) :
    Steps s t c c fun a s' t' => K t' a ∧ P.Amid x R o s' t' :=
  (Steps.calm st k hc).mono fun _ _ _ _ g q => ⟨q.1, h.alike fits st q.2.2 g⟩

/-- Enter a variable. -/
theorem bind (fits : o.Fits R) (st : Stands s t) (mutable : Bool) (htype : t.Has type)
    (hname : name = x → o.enters mutable = true) :
    Steps s t (bind name type mutable) (bind name type mutable) fun _ s' t' =>
      P.Amid x R { o with entered := o.entered || name == x } s' t' ∧
        (name = x → s'.binding? x = some ⟨type, mutable⟩) := by
  have kept := keeps_bind st.sound name htype mutable s st.below
  refine .change st kept.post.2 ?_
  obtain ⟨scope, outer, hscopes, houter, hentry⟩ := h.scopes
  rw [hscopes]
  by_cases hx : name = x
  · subst hx
    have henters := hname rfl
    let o' : Opening := { o with entered := o.entered || name == name }
    have entered : ∃ put, (scope.insert name ⟨type, mutable⟩ (s.env.get? name)).entry name =
        ([⟨type, mutable⟩], some put) ∧ P.Entry name R o' t ([⟨type, mutable⟩], some put) := by
      rw [Scope.entry_insert, if_pos rfl, Scope.get?_eq_locals]
      generalize he : scope.entry name = entry at hentry
      have locals : scope.locals name = entry.1 := congrArg Prod.fst he
      rw [locals]
      cases hentry with
      | none =>
        -- the name has the type from outside so far
        refine ⟨s.env.get? name, rfl, .some henters fun tracked type htype => ?_⟩
        obtain ⟨v, hv, has⟩ := h.env.has tracked type htype
        refine ⟨v, ?_, has⟩
        rwa [binding?_of_none (P := P)] at hv
        rw [CheckState.column, hscopes, map_cons, he, houter]
      | some _ hput => exact ⟨_, rfl, .some henters hput⟩
    obtain ⟨put, entry, hentry⟩ := entered
    have column : (scope.insert name ⟨type, mutable⟩ (s.env.get? name) :: outer).map (·.entry name) =
        ([⟨type, mutable⟩], some put) :: P.column := by
      rw [map_cons, entry, houter]
    have binding := binding?_of_some (P := P) (s := { s with
      scopes := scope.insert name ⟨type, mutable⟩ (s.env.get? name) :: outer
      env := s.env.insert name type }) column
    refine ⟨⟨⟨_, column, hentry⟩, ?_, h.breaks⟩, fun _ => binding⟩
    rw [binding]
    exact .set h.env.ordered (R.declared (fits.assignable henters) st.sound htype)
  · have same : (scope.insert name ⟨type, mutable⟩ (s.env.get? name) :: outer).map (·.entry x) =
        s.scopes.map (·.entry x) := by
      rw [map_cons, Scope.entry_insert, if_neg fun e => hx e.symm, hscopes, map_cons]
    have unchanged : (o.entered || name == x) = o.entered := by
      rw [beq_eq_false_iff_ne.2 hx, Bool.or_false]
    rw [unchanged]
    refine ⟨⟨?_, ?_, h.breaks⟩, fun e => absurd e hx⟩
    · obtain ⟨entry, column, hentry⟩ := h.column
      exact ⟨entry, same.trans column, hentry⟩
    · have binding : CheckState.binding? { s with
          scopes := scope.insert name ⟨type, mutable⟩ (s.env.get? name) :: outer
          env := s.env.insert name type } x = s.binding? x := by
        rw [CheckState.binding?_eq_column, CheckState.binding?_eq_column, CheckState.column, same]
        rfl
      exact binding ▸ h.env.insert_of_ne hx

/-- What is known of a variable changes. -/
theorem refine (st : Stands s t) (htype : t.Has type)
    (has : name = x → R.tracked → ∃ b, s.binding? x = some b ∧ R.Has b.declared t type) :
    Steps s t (refine name type) (refine name type) fun _ s' t' =>
      P.Amid x R o s' t' := by
  refine .change st { st.below with env := below_insert st.below.env htype }
    ⟨h.column, ?_, h.breaks⟩
  by_cases hx : name = x
  · exact hx ▸ h.env.insert (has hx)
  · exact h.env.insert_of_ne hx

/-- A variable of the scope is declared anew. -/
theorem redeclare (fits : o.Fits R) (st : Stands s t)
    (htype : t.Has type) (hname : name = x → o.entered = true) :
    Steps s t (redeclare name type) (redeclare name type) fun _ s' t' =>
      P.Amid x R o s' t' := by
  have kept := keeps_redeclare st.sound name htype s st.below
  refine .change st kept.post.2 ?_ (by split <;> rfl)
  split
  · exact h
  · next v hv =>
    by_cases hx : name = x
    · subst hx
      obtain ⟨scope, outer, hscopes, houter, hentry⟩ := h.scopes
      generalize he : scope.entry name = entry at hentry
      cases hentry with
      | none hentered => exact absurd (hname rfl) (by rw [hentered]; decide)
      | @some b put henters hput =>
        have locals : scope.locals name = [b] := congrArg Prod.fst he
        have found : (scope.get? name).isSome = true := by
          rw [Scope.get?_eq_locals, locals]
          rfl
        have column : (redeclareIn name type s.scopes).map (·.entry name) =
            ([{ b with declared := type }], some put) :: P.column := by
          rw [hscopes, redeclareIn, if_pos found, map_cons, Scope.entry_redeclare,
            if_pos rfl, locals, he, houter]
          rfl
        have binding := binding?_of_some (P := P) (s := { s with
          scopes := redeclareIn name type s.scopes
          env := s.env.insert name type }) column
        refine ⟨⟨_, column, .some henters hput⟩, ?_, h.breaks⟩
        rw [binding]
        exact .set h.env.ordered (R.declared (fits.assignable henters) st.sound htype)
    · have same := CheckState.column_of_ne (fun e => hx e.symm) type s.scopes
      refine ⟨?_, ?_, h.breaks⟩
      · obtain ⟨entry, column, hentry⟩ := h.column
        exact ⟨entry, same.trans column, hentry⟩
      · have binding : CheckState.binding? { s with
            scopes := redeclareIn name type s.scopes
            env := s.env.insert name type } x = s.binding? x := by
          rw [CheckState.binding?_eq_column, CheckState.binding?_eq_column, CheckState.column, same]
          rfl
        exact binding ▸ h.env.insert_of_ne hx

/-- Leave the scope, which brings back the type from before. -/
theorem pop (st : Stands s t) :
    Steps s t popScope popScope fun _ s' t' => P.After x R o.leaves s' t' := by
  have kept := keeps_popScope st.sound s st.below
  refine .change st kept.post.2 ?_ (by split <;> rfl)
  obtain ⟨scope, outer, hscopes, houter, hentry⟩ := h.scopes
  rw [hscopes]
  refine ⟨houter, ⟨fun tracked => ordered_foldl_restore (h.env.ordered tracked),
    fun tracked type htype => ?_⟩, h.breaks⟩
  rw [get?_foldl_restore] at htype
  generalize he : scope.entry x = entry at hentry
  cases hentry with
  | none =>
    rw [show scope.shadowed.reverse.lookup x = none from congrArg Prod.snd he] at htype
    obtain ⟨v, hv, has⟩ := h.env.has tracked type htype
    refine ⟨v, ?_, has⟩
    rwa [binding?_of_none (P := P)] at hv
    rw [CheckState.column, hscopes, map_cons, he, houter]
  | @some b put _ hput =>
    rw [show scope.shadowed.reverse.lookup x = some put from congrArg Prod.snd he] at htype
    exact hput tracked type htype

end

end Amid

/-! ### Functions -/

/-- What forgetting leaves of the type of a variable. -/
def forget (type : Option TypeId) (b : LocalVariable) : Option TypeId :=
  if b.mutable then some b.declared else type

theorem get?_forgetMutable (scope : Scope) (env : TypeEnv) :
    (forgetMutable env scope).get? x = (scope.locals x).foldl forget (env.get? x) := by
  unfold forgetMutable Scope.locals
  induction scope.bindings generalizing env with
  | nil => rfl
  | cons p bindings ih =>
    obtain ⟨name, b⟩ := p
    rw [foldl_cons, ih]
    dsimp only
    by_cases hx : name = x
    · subst hx
      rw [filter_cons_of_pos (by simp), map_cons, foldl_cons, forget]
      split
      · rw [get?_insert, if_pos rfl]
      · rfl
    · rw [filter_cons_of_neg (by simpa using hx)]
      split
      · rw [get?_insert, if_neg fun e => hx e.symm]
      · rfl

theorem ordered_forgetMutable {env : TypeEnv} (h : env.Ordered) (scope : Scope) :
    (forgetMutable env scope).Ordered := by
  refine List.foldlRecOn (motive := TypeEnv.Ordered) _ _ h fun env henv p _ => ?_
  dsimp only
  split
  · exact henv.insert _ _
  · exact henv

/-- Forgetting, scope by scope from the outermost one. -/
theorem get?_resetMutable (scopes : List Scope) (env : TypeEnv) :
    (scopes.reverse.foldl forgetMutable env).get? x =
      (scopes.map (·.entry x)).foldr (fun entry type => entry.1.foldl forget type)
        (env.get? x) := by
  rw [foldl_reverse]
  induction scopes with
  | nil => rfl
  | cons scope scopes ih =>
    rw [foldr_cons, get?_forgetMutable, ih]
    rfl

/-- A type that forgetting leaves was there before or is the declared type of a variable. -/
theorem forgotten_cases {column : List (List LocalVariable × Option (Option TypeId))}
    {type : Option TypeId} {u : TypeId}
    (h : column.foldr (fun entry type => entry.1.foldl forget type) type = some u) :
    type = some u ∨ ∃ b, b ∈ column.flatMap (·.1) := by
  induction column with
  | nil => exact .inl h
  | cons entry column ih =>
    rw [flatMap_cons]
    cases hentry : entry.1 with
    | cons b bs => exact .inr ⟨b, .head _⟩
    | nil =>
      rw [foldr_cons, hentry] at h
      exact ih h

/-- In scopes with one variable at most, the innermost that may be assigned to counts. -/
theorem forgotten_eq {column : List (List LocalVariable × Option (Option TypeId))}
    (single : ∀ entry ∈ column, entry.1.length ≤ 1) (type : Option TypeId) :
    column.foldr (fun entry type => entry.1.foldl forget type) type =
      (((column.flatMap (·.1)).find? (·.mutable)).map (·.declared)).or type := by
  induction column with
  | nil => rfl
  | cons entry column ih =>
    obtain ⟨one, single⟩ := forall_mem_cons.1 single
    rw [foldr_cons, ih single, flatMap_cons]
    match hentry : entry.1 with
    | [] => rfl
    | [b] =>
      rw [singleton_append, find?_cons]
      show forget _ b = _
      rw [forget]
      cases b.mutable <;> rfl
    | _ :: _ :: _ => rw [hentry] at one; simp at one

/-- **Forgetting what is known of locals that may be assigned to** leaves the declared
type of the innermost one. -/
theorem At.reset (h : P.At x R s t) (st : Stands s t) (assignable : R.assignable)
    (steady : R.Strict → P.Steady) :
    Steps s t resetMutable resetMutable fun _ s' t' =>
      P.loose.At x R s' t' := by
  have kept := keeps_resetMutable st.sound s st.below
  refine .change st kept.post.2 ⟨h.column, h.breaks, ⟨fun tracked => ?_, fun tracked type htype => ?_⟩,
    fun _ e => nomatch e⟩
  · exact List.foldlRecOn (motive := TypeEnv.Ordered) _ _ (h.env.ordered tracked)
      fun env henv scope _ => ordered_forgetMutable henv scope
  rw [get?_resetMutable, show s.scopes.map (·.entry x) = P.column from h.column] at htype
  by_cases strict : R.Strict
  · have steady := steady strict
    rw [forgotten_eq steady.single] at htype
    cases hfound : (P.column.flatMap (·.1)).find? (·.mutable) with
    | none =>
      rw [hfound] at htype
      exact h.env.has tracked type htype
    | some b =>
      have mutable : P.Mutable := ⟨b, mem_of_find?_eq_some hfound, find?_some hfound⟩
      have first : P.bound = some b := by
        have innermost := steady.innermost mutable
        unfold bound locals at innermost ⊢
        generalize P.column.flatMap (·.1) = vars at hfound innermost ⊢
        cases vars with
        | nil => cases hfound
        | cons v vars =>
          rw [find?_cons, innermost v rfl] at hfound
          exact hfound
      rw [hfound] at htype
      obtain rfl : b.declared = type := Option.some.inj htype
      exact ⟨b, first, R.declared assignable st.sound (h.below_bound st b first)⟩
  · -- every type is in the region
    have total : ∀ d, R.Has d t type := fun d => Classical.not_not.1 fun e =>
      strict ⟨tracked, assignable, d, t, type, e⟩
    rcases forgotten_cases htype with htype | ⟨b, hb⟩
    · exact h.env.has tracked type htype
    · obtain ⟨v, hv⟩ : ∃ v, P.bound = some v := by
        unfold bound locals
        cases hvars : P.column.flatMap (·.1) with
        | nil => rw [hvars] at hb; cases hb
        | cons v vars => exact ⟨v, rfl⟩
      exact ⟨v, hv, total v.declared⟩

/-- Every type of a variable lies in the whole region. -/
theorem At.whole (h : P.At x R s t) : P.At x (.whole R.tracked) s t where
  column := h.column
  breaks := h.breaks
  env := ⟨h.env.ordered, fun tracked type htype =>
    have ⟨b, hb, _⟩ := h.env.has tracked type htype
    ⟨b, hb, trivial⟩⟩
  fixed := h.fixed

end Point

end GradualTyping
