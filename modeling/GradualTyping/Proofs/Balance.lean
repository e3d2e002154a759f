/-
# What a run leaves as it found it

The recursion guard counts levels in the table, evaluation keeps the types it is
at work on and the aliases it is expanding there, and a comparison keeps the pairs
it takes for granted.  All of this is undone on every way out, also when the guard
trips (`TypeTable.Balanced`).

What holds *during* a run cannot be read off the table it leaves.  It is said by
putting something else in the way of the run.  In `Operations.watched` an alarm
stands behind a limit of depth: it may do anything, so a run that is the same
whatever the alarm is has never reached it.  In `Operations.tampered` the memory is
replaced at the moment the guard trips: what the run leaves is that replacement, so
nothing was entered after it.

The main statement, `Request.run_balanced`, puts these together for every request
on every table.
-/

import GradualTyping.Proofs.Lockstep.Course

namespace GradualTyping

open TypeTable Reduction Operations

/-! ### The table before and after -/

/-- The bookkeeping of a run is undone, an error of the guard stays, and a guard that has
tripped lets nothing into the memory. -/
structure TypeTable.Balanced (t t' : TypeTable) : Prop where
  limits : t'.limits = t.limits
  depth : t'.depth = t.depth
  evaluating : t'.evaluating = t.evaluating
  expanding : t'.expanding = t.expanding
  depthError : ∀ e, t.depthError = some e → t'.depthError = some e
  evaluated : t.depthError.isSome → t'.evaluated = t.evaluated

namespace TypeTable.Balanced

variable {t t' t'' : TypeTable}

theorem refl (t : TypeTable) : t.Balanced t := ⟨rfl, rfl, rfl, rfl, fun _ h => h, fun _ => rfl⟩

theorem tripped (b : t.Balanced t') (h : t.depthError.isSome) : t'.depthError.isSome := by
  obtain ⟨e, he⟩ := Option.isSome_iff_exists.1 h
  rw [b.depthError e he]
  rfl

theorem trans (b : t.Balanced t') (b' : t'.Balanced t'') : t.Balanced t'' :=
  ⟨b'.limits.trans b.limits, b'.depth.trans b.depth, b'.evaluating.trans b.evaluating,
    b'.expanding.trans b.expanding, fun e h => b'.depthError e (b.depthError e h),
    fun h => (b'.evaluated (b.tripped h)).trans (b.evaluated h)⟩

/-- The guard has not tripped if it has not tripped in the end. -/
theorem untripped (b : t.Balanced t') (h : t'.Untripped) : t.Untripped :=
  untripped_or.resolve_left fun ht => h.not_isSome (b.tripped ht)

end TypeTable.Balanced

/-- The course on which every run is balanced. -/
def Course.balance : Course where
  Here _ := True
  To := Balanced
  refl := .refl
  trans := .trans
  idle i _ := ⟨trivial, i.limits, i.depth, i.evaluating, i.expanding,
    fun _ h => i.depthError.trans h, fun _ => i.evaluated⟩
  expanding _ _ := trivial
  expanded _ _ b := ⟨trivial, b.limits, b.depth, b.evaluating, congrArg (List.drop 1) b.expanding,
    b.depthError, b.evaluated⟩
  opening _ _ := trivial
  closing _ _ b := ⟨trivial, b.limits, b.depth, congrArg (List.drop 1) b.evaluating, b.expanding,
    b.depthError, b.evaluated⟩
  storing _ _ _ b hu := ⟨trivial, b.limits, b.depth, congrArg (List.drop 1) b.evaluating,
    b.expanding, b.depthError, fun h => absurd (b.tripped h) hu.not_isSome⟩

theorem Course.guards_balance : balance.Guards balance where
  deeper _ _ _ := trivial
  shallower _ _ _ _ b := ⟨trivial, b.limits, congrArg (· - 1) b.depth, b.evaluating, b.expanding,
    b.depthError, b.evaluated⟩
  trip {t} _ hu _ := by
    refine ⟨trivial, rfl, rfl, rfl, rfl, fun e h => ?_, fun _ => rfl⟩
    rw [show t.depthError = none from hu] at h
    cases h

/-- **The guarded operations are balanced**, with any number of levels left. -/
theorem Operations.joined_balance (n : Nat) :
    Course.balance.lockstep.Joined (withLevels n) (withLevels n) := by
  have still : ∀ {α : Type} (a : α), Course.balance.Rel (pure a) (pure a) :=
    fun a t h => ⟨rfl, h, .refl t⟩
  induction n with
  | zero =>
    exact Course.guards_balance.above ⟨fun _ => still _, fun _ _ _ => still _, fun _ _ _ => still _,
      fun _ _ _ _ => still _, fun _ _ _ _ => still _, fun _ => still _⟩
  | succ n ih => exact Course.guards_balance.above ih

/-! ### Requests -/

/-- What may be asked of a table. -/
inductive Request where
  | evaluate (id : TypeId)
  | isSubtype (sub sup : TypeId)
  | isEqual (a b : TypeId)
  | substitute (s : Substitution) (id : TypeId)
  | infer (state : Inference) (param arg : TypeId)
  | solve (state : Inference)
  | partialSolution (state : Inference)
  | awaited (id : TypeId)
  | member (id : TypeId) (name : String)
  | keyNames (id : TypeId)

namespace Request

abbrev Answer : Request → Type
  | evaluate _ | substitute .. | awaited _ => TypeId
  | isSubtype .. | isEqual .. => Bool
  | infer .. => Unit × Inference
  | solve _ => InferenceSolution
  | partialSolution _ => Substitution
  | member .. => Option TypeId
  | keyNames _ => List String

/-- The answer to a request, over given operations. -/
def runWith (ops : Operations) : (r : Request) → TableM r.Answer
  | evaluate id => ops.evaluate id
  | isSubtype sub sup => ops.subtype sub sup
  | isEqual a b => Subtyping.bothWays ops.subtype a b
  | substitute s id => ops.substitute s id
  | infer state param arg => (Inference.infer ops param arg).run state
  | solve state => state.solve ops
  | partialSolution state => state.partialSolution ops
  | awaited id => ops.awaited id
  | member id name => Members.member? ops id name
  | keyNames id => Reduction.keyNames ops id

/-- The answer to a request. -/
def run : (r : Request) → TableM r.Answer
  | evaluate id => GradualTyping.evaluate id
  | isSubtype sub sup => GradualTyping.isSubtype sub sup
  | isEqual a b => GradualTyping.isEqual a b
  | substitute s id => GradualTyping.substitute s id
  | infer state param arg => do (Inference.infer (← getOperations) param arg).run state
  | solve state => do state.solve (← getOperations)
  | partialSolution state => do state.partialSolution (← getOperations)
  | awaited id => GradualTyping.awaited id
  | member id name => builtinMember? id name
  | keyNames id => GradualTyping.keyNames id

/-- Two runs of a request are in lockstep when the guarded operations are. -/
theorem runWith_rel {L : Lockstep} {ops ops' : Operations} (J : L.Joined ops ops') (r : Request) :
    L.Rel (r.runWith ops) (r.runWith ops') := by
  cases r with
  | evaluate id => exact J.evaluate id
  | isSubtype sub sup => exact J.subtype sub sup
  | isEqual a b => exact L.self.bothWays J.subtype a b
  | substitute s id => exact J.substitute
  | infer state param arg => exact J.infer param arg state
  | solve state => exact J.solve
  | partialSolution state => exact J.partialSolution
  | awaited id => exact J.awaited id
  | member id name => exact J.member?
  | keyNames id => exact J.keyNames

/-- A request is answered by the operations at the depth of the table. -/
theorem run_eq (r : Request) (t : TypeTable) : r.run t = r.runWith t.operations t := by
  cases r with
  | isEqual a b =>
    -- The second question is put to the operations at the depth that the first one leaves.
    have first : t.Balanced (t.operations.subtype a b t).2 :=
      ((joined_balance _).subtype a b t trivial).2.2
    have same : (t.operations.subtype a b t).2.operations = t.operations := by
      show withLevels _ = withLevels _
      rw [first.limits, first.depth]
    simp only [run, runWith, GradualTyping.isEqual, Subtyping.bothWays]
    split
    · rfl
    · show (if (t.operations.subtype a b t).1 = true then GradualTyping.isSubtype b a
        else pure false : TableM Bool) (t.operations.subtype a b t).2 =
          (if (t.operations.subtype a b t).1 = true then t.operations.subtype b a
            else pure false : TableM Bool) (t.operations.subtype a b t).2
      split
      · show (t.operations.subtype a b t).2.operations.subtype b a _ = _
        rw [same]
      · rfl
  | _ => rfl

/-- **Every request is balanced.** -/
theorem balanced (r : Request) (t : TypeTable) : t.Balanced (r.run t).2 := by
  rw [run_eq]
  exact (runWith_rel (joined_balance _) r t trivial).2.2

end Request

/-! ### Other operations in the way -/

/-- The levels that a table has left. -/
def TypeTable.levels (t : TypeTable) : Nat := t.limits.maxDepth - t.depth

/-- Join each two operations of two records into one. -/
def Operations.combine (join : ∀ {α : Type}, TableM α → TableM α → TableM α)
    (ops ops' : Operations) : Operations where
  evaluate id := join (ops.evaluate id) (ops'.evaluate id)
  isSubtype assumed sub sup := join (ops.isSubtype assumed sub sup) (ops'.isSubtype assumed sub sup)
  substituteIn s id st := join (ops.substituteIn s id st) (ops'.substituteIn s id st)
  matchPattern pattern source contravariant st :=
    join (ops.matchPattern pattern source contravariant st)
      (ops'.matchPattern pattern source contravariant st)
  inferFrom param arg contravariant st :=
    join (ops.inferFrom param arg contravariant st) (ops'.inferFrom param arg contravariant st)
  awaited id := join (ops.awaited id) (ops'.awaited id)

/-- Joining keeps lockstep, if the join of any two operations follows its second. -/
theorem Lockstep.Joined.combine {L L' : Lockstep} {ops ops' : Operations} (J : L.Joined ops ops')
    (other : Operations) {join : ∀ {α : Type}, TableM α → TableM α → TableM α}
    (follows : ∀ {α : Type} (a : TableM α) {c c' : TableM α}, L.Rel c c' → L'.Rel (join a c) c') :
    L'.Joined (.combine join other ops) ops' where
  evaluate id := follows _ (J.evaluate id)
  isSubtype assumed sub sup := follows _ (J.isSubtype assumed sub sup)
  substituteIn s id st := follows _ (J.substituteIn s id st)
  matchPattern pattern source contravariant st :=
    follows _ (J.matchPattern pattern source contravariant st)
  inferFrom param arg contravariant st := follows _ (J.inferFrom param arg contravariant st)
  awaited id := follows _ (J.awaited id)

/-- The course at one depth, under one limit: depth and limit are kept. -/
def Course.level (depth limit : Nat) : Course where
  Here t := t.depth = depth ∧ t.limits.maxDepth = limit
  To _ _ := True
  refl _ := trivial
  trans _ _ := trivial
  idle i h := ⟨⟨i.depth.trans h.1, (congrArg Limits.maxDepth i.limits).trans h.2⟩, trivial⟩
  expanding _ h := h
  expanded _ h _ := ⟨h, trivial⟩
  opening _ h := h
  closing _ h _ := ⟨h, trivial⟩
  storing _ _ h _ _ := ⟨h, trivial⟩

theorem Course.guards_level {depth limit : Nat} :
    (level depth limit).Guards (level (depth + 1) limit) where
  deeper h _ _ := ⟨congrArg (· + 1) h.1, h.2⟩
  shallower _ _ _ h _ := ⟨⟨by show _ - 1 = _; rw [h.1]; rfl, h.2⟩, trivial⟩
  trip h _ _ := ⟨h, trivial⟩

/-! ### The depth during a run -/

namespace Operations

/-- Hand over to `alarm` on a table that is deeper than `bound`. -/
def watch (bound : Nat) (alarm : Operations) : Operations → Operations :=
  combine (fun a c => do if bound < (← get).depth then a else c) alarm

/-- The operations with a number of levels left, of which each hands over to `alarm` when it
is called on a table that is deeper than `bound`, and no more than `alarm` is behind the
last level. -/
def watched (bound : Nat) (alarm : Operations) : Nat → Operations
  | 0 => watch bound alarm (above fun _ => alarm)
  | n + 1 => watch bound alarm (above fun _ => watched bound alarm n)

theorem joined_watch {bound depth limit : Nat} (h : depth ≤ bound) {alarm : Operations}
    {ops ops' : Operations} (J : (Course.level depth limit).lockstep.Joined ops ops') :
    (Course.level depth limit).lockstep.Joined (watch bound alarm ops) ops' := by
  refine J.combine alarm fun {α} a {c c'} hc t ht => ?_
  have silent : (do if bound < (← get).depth then a else c : TableM α) t = c t := by
    show (if bound < t.depth then a else c) t = c t
    rw [if_neg (by rw [ht.1]; omega)]
  rw [silent]
  exact hc t ht

/-- **No alarm**: from a table at or above the limit the guarded operations are never called
below it, and never beyond their last level. -/
theorem joined_watched (alarm : Operations) {bound limit : Nat} (n : Nat) {depth : Nat}
    (levels : limit - depth = n) (hlimit : limit ≤ bound) (hdepth : depth ≤ bound) :
    (Course.level depth limit).lockstep.Joined (watched bound alarm n) (withLevels n) := by
  induction n generalizing depth with
  | zero =>
    have G : (Course.level depth limit).Guards .never :=
      Course.guards_never (fun h => by rw [h.1, h.2]; omega) fun h _ => ⟨h, trivial⟩
    exact joined_watch hdepth (G.above Course.joined_never)
  | succ n ih =>
    have deeper : (Course.level (depth + 1) limit).lockstep.Joined _ _ := ih (by omega) (by omega)
    exact joined_watch hdepth (Course.guards_level.above deeper)

end Operations

/-! ### The memory after the guard has tripped -/

/-- Run `c`, and replace the memory when it trips the guard. -/
def tampering (memory : Std.HashMap TypeId TypeId) {α : Type} (c : TableM α) : TableM α := fun t =>
  let r := c t
  (r.1, if t.depthError.isNone && r.2.depthError.isSome then { r.2 with evaluated := memory } else r.2)

/-- The operations with a number of levels left; at the last level, where the guard trips,
tripping it replaces the memory. -/
def Operations.tampered (memory : Std.HashMap TypeId TypeId) : Nat → Operations
  | 0 => combine (fun _ c => tampering memory c) inert (above fun _ => inert)
  | n + 1 => above fun _ => tampered memory n

/-- The course at one depth on which a tripped guard comes with one memory. -/
def Course.memory (memory : Std.HashMap TypeId TypeId) (depth limit : Nat) : Course where
  Here t := t.depth = depth ∧ t.limits.maxDepth = limit
  To t t' := (t.depthError.isSome → t'.depthError.isSome ∧ t'.evaluated = t.evaluated) ∧
    (t.Untripped → t'.depthError.isSome → t'.evaluated = memory)
  refl t := ⟨fun h => ⟨h, rfl⟩, fun hu h => absurd h hu.not_isSome⟩
  trans {t t' t''} r r' := by
    refine ⟨fun h => ?_, fun hu h => ?_⟩
    · have h' := r.1 h
      exact ⟨(r'.1 h'.1).1, (r'.1 h'.1).2.trans h'.2⟩
    · rcases untripped_or with h' | h'
      · exact (r'.1 h').2.trans (r.2 hu h')
      · exact r'.2 h' h
  idle i h := by
    refine ⟨⟨i.depth.trans h.1, (congrArg Limits.maxDepth i.limits).trans h.2⟩,
      fun ht => ⟨i.depthError ▸ ht, i.evaluated⟩, fun hu ht => ?_⟩
    rw [i.depthError] at ht
    exact absurd ht hu.not_isSome
  expanding _ h := h
  expanded _ h r := ⟨h, r⟩
  opening _ h := h
  closing _ h r := ⟨h, r⟩
  storing _ _ h r hu :=
    ⟨h, fun ht => absurd (r.1 ht).1 hu.not_isSome, fun _ ht => absurd ht hu.not_isSome⟩

theorem Course.guards_memory (m : Std.HashMap TypeId TypeId) {depth limit : Nat}
    (h : depth < limit) : (memory m depth limit).Guards (memory m (depth + 1) limit) where
  deeper h _ _ := ⟨congrArg (· + 1) h.1, h.2⟩
  shallower _ _ _ h r := ⟨⟨by show _ - 1 = _; rw [h.1]; rfl, h.2⟩, r⟩
  trip ht _ hd := by
    rw [ht.1, ht.2] at hd
    omega

namespace Operations

/-- At the last level: the run is balanced, and tripping the guard replaces the memory. -/
theorem rel_tampering (m : Std.HashMap TypeId TypeId) (depth limit : Nat) {α : Type}
    {c : TableM α} (h : Course.balance.Rel c c) :
    (Course.memory m depth limit).Rel (tampering m c) (tampering m c) := by
  intro t ht
  have b : t.Balanced (c t).2 := (h t trivial).2.2
  have here : (Course.memory m depth limit).Here (c t).2 :=
    ⟨b.depth.trans ht.1, (congrArg Limits.maxDepth b.limits).trans ht.2⟩
  refine ⟨rfl, ?_⟩
  unfold tampering
  dsimp only
  split
  · next hnow =>
    rw [Bool.and_eq_true, Option.isNone_iff_eq_none] at hnow
    exact ⟨here, fun h => absurd h (Untripped.not_isSome hnow.1), fun _ _ => rfl⟩
  · next hnow =>
    refine ⟨here, fun h => ⟨b.tripped h, b.evaluated h⟩, fun hu h => absurd ?_ hnow⟩
    rw [Bool.and_eq_true, Option.isNone_iff_eq_none]
    exact ⟨hu, h⟩

/-- **The memory of the trip is the memory of the end.** -/
theorem joined_tampered (m : Std.HashMap TypeId TypeId) {limit : Nat} (n : Nat) {depth : Nat}
    (levels : limit - depth = n) :
    (Course.memory m depth limit).lockstep.Joined (tampered m n) (tampered m n) := by
  induction n generalizing depth with
  | zero =>
    have J := joined_balance 0
    have trips {α : Type} {c : TableM α} (h : Course.balance.Rel c c) := rel_tampering m depth limit h
    exact ⟨fun id => trips (J.evaluate id), fun as a b => trips (J.isSubtype as a b),
      fun s id st => trips (J.substituteIn s id st),
      fun p q b st => trips (J.matchPattern p q b st),
      fun p a b st => trips (J.inferFrom p a b st), fun id => trips (J.awaited id)⟩
  | succ n ih => exact (Course.guards_memory m (by omega)).above (ih (by omega))

end Operations

/-! ### The memory that was replaced by itself -/

/-- Two runs at one depth that agree when the guard, if it trips, trips with the memory `m`
in the second. -/
def Lockstep.replacing (m : Std.HashMap TypeId TypeId) (depth limit : Nat) : Lockstep where
  Rel c c' := ∀ t, t.depth = depth → t.limits.maxDepth = limit → t.Balanced (c' t).2 ∧
    ((t.Untripped → (c' t).2.depthError.isSome → (c' t).2.evaluated = m) → c t = c' t)
  pure _ t _ _ := ⟨.refl t, fun _ => rfl⟩
  bind {_ _ c c' f f'} hc hf t hd hl := by
    obtain ⟨b1, e1⟩ := hc t hd hl
    obtain ⟨b2, e2⟩ := hf (c' t).1 (c' t).2 (b1.depth.trans hd)
      ((congrArg Limits.maxDepth b1.limits).trans hl)
    refine ⟨b1.trans b2, fun hm => ?_⟩
    -- What is tripped after the first is tripped, with the same memory, after the second.
    have first : c t = c' t := e1 fun hu ht =>
      (b2.evaluated ht).symm.trans (hm hu (b2.tripped ht))
    show f (c t).1 (c t).2 = f' (c' t).1 (c' t).2
    rw [first]
    exact e2 fun hu ht => hm (b1.untripped hu) ht
  look {_ _} g {_ _} _ h := by
    intro t hd hl
    exact h (g t) t hd hl
  intern ty t _ _ := ⟨(Course.balance.idle (idle_insert t ty) trivial).2, fun _ => rfl⟩
  freshVariable t _ _ := ⟨(Course.balance.lockstep.freshVariable t trivial).2.2, fun _ => rfl⟩
  whileExpanding {_} name {c c'} hc t hd hl := by
    obtain ⟨b, e⟩ := hc (t.expandingOne name) hd hl
    refine ⟨(Course.balance.expanded trivial trivial b).2, fun hm => ?_⟩
    show ((c (t.expandingOne name)).1, (c (t.expandingOne name)).2.expandedOne) =
      ((c' (t.expandingOne name)).1, (c' (t.expandingOne name)).2.expandedOne)
    rw [e hm]

namespace Lockstep

variable (m : Std.HashMap TypeId TypeId) {depth limit : Nat}

theorem bracket_replacing (hlt : depth < limit) :
    Bracket (replacing m depth limit) (replacing m (depth + 1) limit) := by
  refine ⟨fun {α} tripped {c c'} h t hd hl => ?_⟩
  rw [guarded_eq, guarded_eq]
  rcases untripped_or with hu | hu
  · rw [enter_of_tripped hu]
    exact ⟨.refl t, fun _ => rfl⟩
  · have hpass : t.depth < t.limits.maxDepth := by omega
    rw [enter_of_lt hu hpass]
    obtain ⟨b, e⟩ := h t.deeper (congrArg (· + 1) hd) hl
    refine ⟨(Course.guards_balance.shallower trivial hu hpass trivial b).2, fun hm => ?_⟩
    show ((c t.deeper).1, (c t.deeper).2.shallower) = ((c' t.deeper).1, (c' t.deeper).2.shallower)
    rw [e hm]

theorem replacing_remembering (id : TypeId) {c c' : TableM TypeId}
    (h : (replacing m depth limit).Rel c c') :
    (replacing m depth limit).Rel (remembering id c) (remembering id c') := by
  intro t hd hl
  obtain ⟨b, e⟩ := h (t.opening id) hd hl
  rw [remembering_eq, remembering_eq]
  split
  · next ht =>
    refine ⟨(Course.balance.closing trivial trivial b).2, fun hm => ?_⟩
    rw [e fun hu _ => hm hu ht, if_pos ht]
  · next ht =>
    have hu := Option.not_isSome_iff_eq_none.1 ht
    refine ⟨(Course.balance.storing _ trivial trivial b hu).2, fun _ => ?_⟩
    rw [e fun _ h => absurd h ht, if_neg ht]

end Lockstep

namespace Operations

/-- **Replacing the memory by what it is in the end changes nothing.** -/
theorem joined_replacing (m : Std.HashMap TypeId TypeId) {limit : Nat} (n : Nat) {depth : Nat}
    (levels : limit - depth = n) :
    (Lockstep.replacing m depth limit).Joined (tampered m n) (withLevels n) := by
  induction n generalizing depth with
  | zero =>
    refine (joined_balance 0).combine inert fun {α} _ {c c'} h t _ _ => ?_
    obtain ⟨same, -, b⟩ := h t trivial
    refine ⟨same ▸ b, fun hm => ?_⟩
    rw [← same] at hm ⊢
    unfold tampering
    dsimp only
    split
    · next hnow =>
      rw [Bool.and_eq_true, Option.isNone_iff_eq_none] at hnow
      rw [← hm hnow.1 hnow.2]
      rfl
    · rfl
  | succ n ih =>
    exact (Lockstep.bracket_replacing m (by omega)).above (ih (by omega))
      (Lockstep.replacing_remembering m)

end Operations

/-! ### The assumptions of a comparison -/

namespace Subtyping

/-- A comparison that keeps its assumptions in a set: the pair is entered before its clause
and removed after it. -/
def keepingStep (deeper : Operations) (ask : Ask (StateT Assumptions TableM)) (sub sup : TypeId) :
    StateT Assumptions TableM Bool := do
  if settled (← (get : TableM TypeTable)) sub sup then return true
  else if (← getThe Assumptions).contains (sub, sup) then return true
  else guarded false do
    modifyThe Assumptions (·.insert (sub, sup))
    let holds ← clause deeper ask sub sup
    modifyThe Assumptions (·.erase (sub, sup))
    return holds

/-- Comparison with one set of assumptions, with a number of levels left. -/
def keeping : Nat → Ask (StateT Assumptions TableM)
  | 0 => keepingStep .inert fun _ _ => return false
  | n + 1 => keepingStep (.withLevels n) (keeping n)

end Subtyping

/-- Operations that are the same are in lockstep. -/
def Lockstep.same : Lockstep where
  Rel := Eq
  pure _ := rfl
  bind h k := by rw [h, funext k]
  look {_ _} _ {_ _} _ h := by rw [funext h]
  intern _ := rfl
  freshVariable := rfl
  whileExpanding _ _ _ h := by rw [h]

theorem Lockstep.joined_same {ops : Operations} : same.Joined ops ops :=
  ⟨fun _ => rfl, fun _ _ _ => rfl, fun _ _ _ => rfl, fun _ _ _ _ => rfl, fun _ _ _ _ => rfl,
    fun _ => rfl⟩

/-- An operation with a set of assumptions that leaves the set as it is. -/
def Lockstep.assuming (assumed : Assumptions) :
    same.Over (StateT Assumptions TableM) TableM where
  Rel c c' := c.run assumed = (·, assumed) <$> c'
  pure _ := rfl
  bind {_ _ c c' f f'} h k := by
    have hk : (fun a => (f a).run assumed) = fun a => (·, assumed) <$> f' a := funext k
    rw [StateT.run_bind, h, map_eq_pure_bind, bind_assoc, map_eq_pure_bind, bind_assoc]
    refine bind_congr fun a => ?_
    rw [pure_bind, k a, map_eq_pure_bind]
  lift h := by rw [h]; rfl
  look {_ _} g {f f'} _ h := by
    show (g <$> MonadState.get >>= fun b => (f b).run assumed) =
      (·, assumed) <$> (g <$> MonadState.get >>= f')
    rw [funext h]
    rfl

namespace Subtyping

theorem guarded_map {α β : Type} (f : α → β) (tripped : α) (c : TableM α) :
    guarded (f tripped) (f <$> c) = f <$> guarded tripped c := by
  funext t
  show (if (enter t).1 = true then _ else _ : TableM β) (enter t).2 =
    (f <$> (if (enter t).1 = true then _ else _ : TableM α)) (enter t).2
  cases (enter t).1 <;> rfl

/-- One set, entered and removed around each clause, is as good as a list handed down. -/
theorem keepingStep_run {deeper : Operations} {ask : Ask (StateT Assumptions TableM)}
    (h : ∀ assumed a b, (ask a b).run assumed = (·, assumed) <$> deeper.isSubtype assumed a b)
    {assumed : Assumptions} {sub sup : TypeId} :
    (keepingStep deeper ask sub sup).run assumed =
      (·, assumed) <$> step deeper deeper.isSubtype assumed sub sup := by
  funext t
  show (if settled t sub sup = true then _ else _ : StateT Assumptions TableM Bool) assumed t =
    ((·, assumed) <$> (if settled t sub sup = true then _ else _ : TableM Bool)) t
  by_cases hs : settled t sub sup = true
  · rw [if_pos hs, if_pos hs]
    rfl
  rw [if_neg hs, if_neg hs]
  show (if assumed.contains (sub, sup) = true then _ else _ : StateT Assumptions TableM Bool)
    assumed t = _
  by_cases ha : assumed.contains (sub, sup) = true
  · rw [if_pos ha, if_pos ha]
    rfl
  rw [if_neg ha, if_neg ha, ← guarded_map]
  show (guarded false _ : StateT Assumptions TableM Bool).run assumed t = _
  rw [guarded_run]
  refine congrFun (congrArg (guarded (false, assumed)) ?_) t
  -- The clause runs with the pair in the set and leaves it there.
  have hclause : (clause deeper ask sub sup).run ((sub, sup) :: assumed) =
      (·, (sub, sup) :: assumed) <$> clause deeper (deeper.isSubtype ((sub, sup) :: assumed)) sub sup :=
    (Lockstep.assuming ((sub, sup) :: assumed)).clause (h _) Lockstep.joined_same sub sup
  have hnew : assumed.insert (sub, sup) = (sub, sup) :: assumed :=
    List.insert_of_not_mem (by simpa using ha)
  calc (do
          modifyThe Assumptions (·.insert (sub, sup))
          let holds ← clause deeper ask sub sup
          modifyThe Assumptions (·.erase (sub, sup))
          return holds : StateT Assumptions TableM Bool).run assumed
      = (do
          let p ← (clause deeper ask sub sup).run (assumed.insert (sub, sup))
          return (p.1, p.2.erase (sub, sup))) := rfl
    _ = _ := by
      rw [hnew, hclause]
      simp

theorem keeping_run (n : Nat) (assumed : Assumptions) (sub sup : TypeId) :
    (keeping n sub sup).run assumed = (·, assumed) <$> (withLevels n).isSubtype assumed sub sup := by
  induction n generalizing assumed sub sup with
  | zero => exact keepingStep_run (fun _ _ _ => rfl)
  | succ n ih => exact keepingStep_run ih

end Subtyping

/-! ### Every request -/

/-- **Every request on every table undoes its bookkeeping**, whether or not the recursion guard
trips.  Depth, the types under evaluation and the aliases under expansion are as before, an
error of the guard stays, and with the guard tripped nothing is remembered.  During the run
the depth never passes the limit, and if the guard trips then the memory is left as it was
when it did.  A comparison that keeps its assumptions in a set leaves the set as it was. -/
theorem Request.run_balanced (r : Request) (t : TypeTable) :
    t.Balanced (r.run t).2 ∧
    (∀ alarm, r.runWith (.watched (max t.limits.maxDepth t.depth) alarm t.levels) t = r.run t) ∧
    (t.Untripped →
      (∀ memory, (r.runWith (.tampered memory t.levels) t).2.depthError.isSome →
        (r.runWith (.tampered memory t.levels) t).2.evaluated = memory) ∧
      r.runWith (.tampered (r.run t).2.evaluated t.levels) t = r.run t) ∧
    ∀ assumed sub sup, (Subtyping.keeping t.levels sub sup).run assumed t =
      ((·, assumed) <$> t.operations.isSubtype assumed sub sup) t := by
  refine ⟨r.balanced t, fun alarm => ?_, fun hu => ⟨fun memory ht => ?_, ?_⟩, fun assumed sub sup => ?_⟩
  · rw [run_eq]
    have J := joined_watched alarm t.levels rfl (Nat.le_max_left _ t.depth)
      (Nat.le_max_right t.limits.maxDepth _)
    exact (runWith_rel J r t ⟨rfl, rfl⟩).1
  · have J := joined_tampered memory t.levels rfl
    exact (runWith_rel J r t ⟨rfl, rfl⟩).2.2.2 hu ht
  · have J := joined_replacing (r.run t).2.evaluated t.levels rfl
    rw [run_eq] at J ⊢
    exact (runWith_rel J r t rfl rfl).2 fun _ _ => rfl
  · exact congrFun (Subtyping.keeping_run t.levels assumed sub sup) t

/-- A comparison that trips the guard, with another memory put in its place at that moment. -/
theorem run_balanced_tripped :
    (withLimits { maxDepth := 0 }).Untripped ∧
    ((Request.isSubtype .string .number).runWith (.tampered (.ofList [(.string, .number)]) 0)
      (withLimits { maxDepth := 0 })).2.depthError.isSome ∧
    ((Request.isSubtype .string .number).runWith (.tampered (.ofList [(.string, .number)]) 0)
      (withLimits { maxDepth := 0 })).2.evaluated = .ofList [(.string, .number)] := by
  have fresh : (withLimits { maxDepth := 0 }).Untripped := by rw [withLimits_eq]; rfl
  have levels : (withLimits { maxDepth := 0 }).levels = 0 := by rw [withLimits_eq]; rfl
  have trips : ((Request.isSubtype .string .number).runWith
      (.tampered (.ofList [(.string, .number)]) 0) (withLimits { maxDepth := 0 })).2.depthError.isSome := by
    rw [withLimits_eq]
    rfl
  refine ⟨fresh, trips, ?_⟩
  have h := (((Request.isSubtype .string .number).run_balanced (withLimits { maxDepth := 0 })).2.2.1
    fresh).1 (.ofList [(.string, .number)])
  rw [levels] at h
  exact h trips

end GradualTyping
