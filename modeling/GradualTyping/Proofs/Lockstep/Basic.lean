/-
# Two runs in lockstep

An operation on a table is made of few steps: it reads the table, it makes a node
or a variable, and it asks the guarded operations one level deeper.  A relation
between two operations that sequencing respects, and that each of these steps has
to itself, therefore holds between two runs of one operation over two records of
guarded operations, as soon as it holds between the records.

`Lockstep` is such a relation and `Lockstep.Over` carries it to other monads over a
table.  This module has the loops over a list and the constructors of nodes; the
operations are in the modules beside it.

Nothing is asked of the table: the statements hold on tables that are not sound
and of types that are not in the table.
-/

import GradualTyping.Operations.Layers

namespace GradualTyping

open TypeTable List

/-! ### Readings of a table -/

namespace TypeTable

/-- The table with another limit of depth. -/
def withDepth (t : TypeTable) (limit : Nat) : TypeTable :=
  { t with limits := { t.limits with maxDepth := limit } }

/-- A limit of depth and a depth. -/
structure Place where
  limit : Nat
  depth : Nat

/-- The table at another depth, with another limit of it. -/
def under (t : TypeTable) (p : Place) : TypeTable := { t.withDepth p.limit with depth := p.depth }

/-- The walks over the parts of a type that stop at the limit of depth see the same under
another limit. -/
structure SameUnder (t : TypeTable) (p : Place) : Prop where
  identical (a b : TypeId) : (t.under p).identical a b = t.identical a b
  freeParams (id : TypeId) : (t.under p).freeParams id = t.freeParams id
  placeholders (id : TypeId) : (t.under p).placeholders id = t.placeholders id

/-- A reading that depends on the limit of depth through these walks only, and not on the
depth. -/
def Blind {β : Type} (f : TypeTable → β) : Prop :=
  ∀ t p, t.SameUnder p → f (t.under p) = f t

variable {t : TypeTable} {p : Place}

theorem SameUnder.canonicalMembers (h : t.SameUnder p) (ms : List TypeId) :
    (t.under p).canonicalMembers ms = t.canonicalMembers ms := by
  have collapse (ms : List TypeId) : (t.under p).collapse ms = t.collapse ms := by
    simp only [TypeTable.collapse, h.identical]
    rfl
  simp only [TypeTable.canonicalMembers, collapse]
  rfl

theorem splitUnion?_under (t : TypeTable) (p : Place) (ids : List TypeId) :
    (t.under p).splitUnion? ids = t.splitUnion? ids := by
  induction ids with
  | nil => rfl
  | cons id ids ih =>
    simp only [TypeTable.splitUnion?, ih]
    rfl

theorem parts?_under (t : TypeTable) (p : Place) (ps : Parts) (ids : List TypeId) :
    (t.under p).parts? ps ids = t.parts? ps ids := by
  induction ids generalizing ps with
  | nil => rfl
  | cons id ids ih =>
    simp only [TypeTable.parts?, ih]
    rfl

end TypeTable

/-! ### Runs in lockstep -/

/-- A relation between operations on a table that sequencing respects and that every step
on the table alone has to itself. -/
structure Lockstep where
  Rel {α : Type} : TableM α → TableM α → Prop
  pure {α : Type} (a : α) : Rel (pure a) (pure a)
  bind {α β : Type} {c c' : TableM α} {f f' : α → TableM β} : Rel c c' → (∀ a, Rel (f a) (f' a)) →
    Rel (c >>= f) (c' >>= f')
  look {α β : Type} (g : TypeTable → β) {f f' : β → TableM α} : Blind (fun t => f' (g t)) →
    (∀ b, Rel (f b) (f' b)) → Rel (g <$> get >>= f) (g <$> get >>= f')
  intern (ty : Ty) : Rel (intern ty) (intern ty)
  freshVariable : Rel freshVariable freshVariable
  whileExpanding {α : Type} (name : String) {c c' : TableM α} : Rel c c' →
    Rel (Reduction.whileExpanding name c) (Reduction.whileExpanding name c')

/-- The relation carried to two monads over a table. -/
structure Lockstep.Over (L : Lockstep) (m m' : Type → Type) [Monad m] [MonadLiftT TableM m]
    [Monad m'] [MonadLiftT TableM m'] where
  Rel {α : Type} : m α → m' α → Prop
  pure {α : Type} (a : α) : Rel (Pure.pure a) (Pure.pure a)
  bind {α β : Type} {c : m α} {c' : m' α} {f : α → m β} {f' : α → m' β} : Rel c c' →
    (∀ a, Rel (f a) (f' a)) → Rel (c >>= f) (c' >>= f')
  lift {α : Type} {c c' : TableM α} : L.Rel c c' → Rel (liftM c) (liftM c')
  look {α β : Type} (g : TypeTable → β) {f : β → m α} {f' : β → m' α} :
    Blind (fun t => f' (g t)) → (∀ b, Rel (f b) (f' b)) →
    Rel (liftM (g <$> get : TableM β) >>= f) (liftM (g <$> get : TableM β) >>= f')

namespace Lockstep

/-- The relation itself. -/
def self (L : Lockstep) : L.Over TableM TableM where
  Rel := L.Rel
  pure := L.pure
  bind := L.bind
  lift h := h
  look := L.look

/-- Operations with a state of their own, from every state. -/
def state (L : Lockstep) (σ : Type) : L.Over (StateT σ TableM) (StateT σ TableM) where
  Rel c c' := ∀ st, L.Rel (c.run st) (c'.run st)
  pure a st := L.pure (a, st)
  bind h k st := L.bind (h st) fun p => k p.1 p.2
  lift h st := L.bind h fun a => L.pure (a, st)
  look {_ _} g {f f'} blind h st := by
    show L.Rel (g <$> get >>= fun b => (f b).run st) (g <$> get >>= fun b => (f' b).run st)
    exact L.look g (fun t p same => congrArg (·.run st) (blind t p same)) fun b => h b st

/-- Operations that may have no answer. -/
def option (L : Lockstep) : L.Over (OptionT TableM) (OptionT TableM) where
  Rel c c' := L.Rel c.run c'.run
  pure a := L.pure (some a)
  bind h k := by
    rw [OptionT.run_bind, OptionT.run_bind]
    refine L.bind h fun o => ?_
    cases o with
    | none => exact L.pure none
    | some a => exact k a
  lift h := L.bind h fun a => L.pure (some a)
  look := L.look

/-! ### Loops over a list -/

section Loops

variable {L : Lockstep} {m m' : Type → Type} [Monad m] [MonadLiftT TableM m] [Monad m']
  [MonadLiftT TableM m'] (O : L.Over m m') {α β : Type} {xs : List α}

/-- Read the table. -/
theorem Over.get {f : TypeTable → m α} {f' : TypeTable → m' α} (blind : Blind f')
    (h : ∀ t, O.Rel (f t) (f' t)) :
    O.Rel (liftM (MonadState.get : TableM TypeTable) >>= f)
      (liftM (MonadState.get : TableM TypeTable) >>= f') :=
  O.look id blind h

theorem Over.map [LawfulMonad m] [LawfulMonad m'] {c : m α} {c' : m' α} (g : α → β) (h : O.Rel c c') :
    O.Rel (g <$> c) (g <$> c') := by
  rw [← bind_pure_comp, ← bind_pure_comp]
  exact O.bind h fun a => O.pure (g a)

theorem Over.mapM [LawfulMonad m] [LawfulMonad m'] {f : α → m β} {f' : α → m' β}
    (h : ∀ x ∈ xs, O.Rel (f x) (f' x)) : O.Rel (xs.mapM f) (xs.mapM f') := by
  induction xs with
  | nil => exact O.pure []
  | cons x xs ih =>
    rw [mapM_cons, mapM_cons]
    refine O.bind (h x (.head _)) fun b => ?_
    exact O.bind (ih fun y hy => h y (.tail _ hy)) fun bs => O.pure _

theorem Over.foldlM {f : β → α → m β} {f' : β → α → m' β} (h : ∀ b, ∀ x ∈ xs, O.Rel (f b x) (f' b x))
    (init : β) : O.Rel (xs.foldlM f init) (xs.foldlM f' init) := by
  induction xs generalizing init with
  | nil => exact O.pure init
  | cons x xs ih =>
    rw [foldlM_cons, foldlM_cons]
    exact O.bind (h init x (.head _)) fun b => ih (fun b y hy => h b y (.tail _ hy)) b

theorem Over.forM {f : α → m PUnit} {f' : α → m' PUnit} (h : ∀ x ∈ xs, O.Rel (f x) (f' x)) :
    O.Rel (xs.forM f) (xs.forM f') := by
  induction xs with
  | nil => exact O.pure _
  | cons x xs ih => exact O.bind (h x (.head _)) fun _ => ih fun y hy => h y (.tail _ hy)

theorem Over.anyM {f : α → m Bool} {f' : α → m' Bool} (h : ∀ x ∈ xs, O.Rel (f x) (f' x)) :
    O.Rel (xs.anyM f) (xs.anyM f') := by
  induction xs with
  | nil => exact O.pure false
  | cons x xs ih =>
    refine O.bind (h x (.head _)) fun b => ?_
    cases b with
    | true => exact O.pure true
    | false => exact ih fun y hy => h y (.tail _ hy)

theorem Over.allM {f : α → m Bool} {f' : α → m' Bool} (h : ∀ x ∈ xs, O.Rel (f x) (f' x)) :
    O.Rel (xs.allM f) (xs.allM f') := by
  induction xs with
  | nil => exact O.pure true
  | cons x xs ih =>
    refine O.bind (h x (.head _)) fun b => ?_
    cases b with
    | true => exact ih fun y hy => h y (.tail _ hy)
    | false => exact O.pure false

theorem Over.filterM {f : α → m Bool} {f' : α → m' Bool} (h : ∀ x ∈ xs, O.Rel (f x) (f' x)) :
    O.Rel (xs.filterM f) (xs.filterM f') := by
  have loop : ∀ (l acc : List α), l ⊆ xs → O.Rel (l.filterAuxM f acc) (l.filterAuxM f' acc) := by
    intro l
    induction l with
    | nil => exact fun acc _ => O.pure acc
    | cons x l ih =>
      intro acc hl
      obtain ⟨hx, hl⟩ := cons_subset.1 hl
      exact O.bind (h x hx) fun b => ih _ hl
  exact O.bind (loop xs [] (List.Subset.refl xs)) fun ys => O.pure ys.reverse

theorem Over.filterMapM {f : α → m (Option β)} {f' : α → m' (Option β)}
    (h : ∀ x ∈ xs, O.Rel (f x) (f' x)) : O.Rel (xs.filterMapM f) (xs.filterMapM f') := by
  have loop : ∀ (l : List α) (acc : List β), l ⊆ xs →
      O.Rel (List.filterMapM.loop f l acc) (List.filterMapM.loop f' l acc) := by
    intro l
    induction l with
    | nil => exact fun acc _ => O.pure acc.reverse
    | cons x l ih =>
      intro acc hl
      obtain ⟨hx, hl⟩ := cons_subset.1 hl
      refine O.bind (h x hx) fun o => ?_
      cases o with
      | none => exact ih acc hl
      | some b => exact ih (b :: acc) hl
  exact loop xs [] (List.Subset.refl xs)

end Loops

section Steps

variable (L : Lockstep)

/-- Read the table. -/
theorem get {α : Type} {f f' : TypeTable → TableM α} (blind : Blind f')
    (h : ∀ t, L.Rel (f t) (f' t)) : L.Rel (MonadState.get >>= f) (MonadState.get >>= f') :=
  L.look id blind h

/-- A step that only reads the table. -/
theorem reads {α : Type} (f : TypeTable → α) (blind : Blind f) :
    L.Rel (do return f (← MonadState.get)) (do return f (← MonadState.get)) :=
  L.look id (fun t p same => congrArg Pure.pure (blind t p same)) fun t => L.pure (f t)

theorem resolve (id : TypeId) : L.Rel (resolve id) (resolve id) := L.reads _ fun _ _ _ => rfl

theorem isOpen {id : TypeId} : L.Rel (isOpen id) (isOpen id) :=
  L.reads _ fun _ _ same => by simp only [same.freeParams]

theorem isDeferred {id : TypeId} : L.Rel (isDeferred id) (isDeferred id) :=
  L.reads (fun t => !(t.freeParams id).isEmpty && !(t.resolve id).isObject) fun _ _ same => by
    simp only [same.freeParams]
    rfl

/-! ### Constructors of nodes -/

theorem literalType {l : Literal} : L.Rel (literalType l) (literalType l) := by
  unfold GradualTyping.literalType
  split
  · exact L.pure _
  · exact L.pure _
  · exact L.intern _

theorem stringLiteral {s : String} : L.Rel (stringLiteral s) (stringLiteral s) := L.literalType

theorem promiseOf {inner : TypeId} : L.Rel (promiseOf inner) (promiseOf inner) := by
  refine L.bind (L.resolve inner) fun ty => ?_
  split
  · exact L.pure _
  · exact L.intern _

theorem objectOf {ps : List Property} {index : Option TypeId} :
    L.Rel (objectOf ps index) (objectOf ps index) :=
  L.intern _

theorem templateOf {spans : List TemplateSpan} : L.Rel (templateOf spans) (templateOf spans) := by
  unfold GradualTyping.templateOf
  split
  · exact L.stringLiteral
  · exact L.stringLiteral
  · exact L.intern _

theorem unionOf (ms : List TypeId) : L.Rel (unionOf ms) (unionOf ms) := by
  refine L.get (fun t p same => by simp only [same.canonicalMembers]) fun t => ?_
  split
  · exact L.pure _
  · exact L.pure _
  · exact L.intern _

theorem widenLiterals {id : TypeId} : L.Rel (widenLiterals id) (widenLiterals id) := by
  refine L.get (fun _ _ _ => rfl) fun t => ?_
  split
  · exact L.unionOf _
  · exact L.pure _

theorem mergeObjects {meet : TypeId → TypeId → TableM TypeId}
    (hmeet : ∀ x y, L.Rel (meet x y) (meet x y)) {a b : ObjectShape} :
    L.Rel (mergeObjects meet a b) (mergeObjects meet a b) := by
  have distinct : ∀ x y, L.Rel (if x = y then Pure.pure x else meet x y : TableM TypeId)
      (if x = y then Pure.pure x else meet x y) := by
    intro x y
    split
    · exact L.pure x
    · exact hmeet x y
  unfold GradualTyping.mergeObjects
  refine L.bind (L.self.mapM fun p _ => ?_) fun shared => ?_
  · split
    · exact L.bind (distinct _ _) fun type => L.pure _
    · exact L.pure p
  · dsimp only
    split
    · exact L.bind (L.self.map some (distinct _ _)) fun index => L.pure _
    · exact L.bind (L.pure _) fun index => L.pure _

theorem mergeAll {meet : TypeId → TypeId → TableM TypeId}
    (hmeet : ∀ x y, L.Rel (meet x y) (meet x y)) (os : List ObjectShape) :
    L.Rel (mergeAll meet os) (mergeAll meet os) := by
  cases os with
  | nil => exact L.pure none
  | cons o os =>
    refine L.bind (L.self.foldlM (fun a b _ => L.mergeObjects hmeet) o) fun merged => ?_
    exact L.bind (L.intern _) fun id => L.pure _

theorem joinParts {meet : List TypeId → TableM TypeId} (hmeet : ∀ ms, L.Rel (meet ms) (meet ms))
    {t : TypeTable} {flat : List TypeId} :
    L.Rel (intersectStep.joinParts meet t flat) (intersectStep.joinParts meet t flat) := by
  unfold intersectStep.joinParts
  split
  · exact L.pure _
  split
  · exact L.pure _
  · refine L.bind (L.mergeAll (fun x y => hmeet [x, y]) _) fun object => ?_
    split
    · exact L.pure _
    · exact L.pure _
    · exact L.intern _

theorem intersectWithin (fuel : Nat) (ms : List TypeId) :
    L.Rel (intersectWithin fuel ms) (intersectWithin fuel ms) := by
  induction fuel generalizing ms with
  | zero =>
    unfold GradualTyping.intersectWithin
    exact L.pure _
  | succ fuel ih =>
    unfold GradualTyping.intersectWithin intersectStep
    refine L.get (fun t p _ => ?_) fun t => ?_
    · simp only [splitUnion?_under, intersectStep.joinParts, parts?_under]
      rfl
    dsimp only
    split
    · exact L.pure _
    split
    · exact L.pure _
    split
    · exact L.pure _
    · exact L.pure _
    split
    · split
      · exact L.bind (L.self.mapM fun alt _ => ih _) fun results => L.unionOf results
      · exact L.joinParts ih
    · exact L.joinParts ih

theorem intersectionOf {ms : List TypeId} : L.Rel (intersectionOf ms) (intersectionOf ms) :=
  L.get (fun _ _ _ => rfl) fun _ => L.intersectWithin _ ms

end Steps

/-! ### The guarded operations -/

end Lockstep

/-- Two records of guarded operations in lockstep. -/
structure Lockstep.Joined (L : Lockstep) (ops ops' : Operations) : Prop where
  evaluate (id : TypeId) : L.Rel (ops.evaluate id) (ops'.evaluate id)
  isSubtype (assumed : Assumptions) (sub sup : TypeId) :
    L.Rel (ops.isSubtype assumed sub sup) (ops'.isSubtype assumed sub sup)
  substituteIn (s : Substitution) (id : TypeId) :
    (L.state _).Rel (ops.substituteIn s id) (ops'.substituteIn s id)
  matchPattern (pattern source : TypeId) (contravariant : Bool) :
    (L.state _).Rel (ops.matchPattern pattern source contravariant)
      (ops'.matchPattern pattern source contravariant)
  inferFrom (param arg : TypeId) (contravariant : Bool) :
    (L.state _).Rel (ops.inferFrom param arg contravariant) (ops'.inferFrom param arg contravariant)
  awaited (id : TypeId) : L.Rel (ops.awaited id) (ops'.awaited id)

namespace Lockstep.Joined

variable {L : Lockstep} {ops ops' : Operations} (J : L.Joined ops ops')

include J

theorem subtype (sub sup : TypeId) : L.Rel (ops.subtype sub sup) (ops'.subtype sub sup) :=
  J.isSubtype [] sub sup

theorem substitute {s : Substitution} {id : TypeId} :
    L.Rel (ops.substitute s id) (ops'.substitute s id) := by
  unfold Operations.substitute
  split
  · exact L.pure id
  · exact L.self.map _ (J.substituteIn s id {})

end Lockstep.Joined

end GradualTyping
