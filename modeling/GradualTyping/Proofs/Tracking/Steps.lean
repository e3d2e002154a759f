/-
# Runs from one state

`Keeps` says what checking does to the table and to the types in its answer, whatever
the state.  Following a variable needs the states too: `Steps s t c c' Q` is the triple
of a run from the state `s` and the table `t`, with `Q` about the answer and the state
and the table that it leaves.  It is about two computations that do the same from there,
which compares a check with one that is watched.

What a check does to its state from everywhere is said by `Leads R`: the state that it
leaves is in relation `R` to the one that it starts from.  Most steps of the checker are quiet,
they push and pop nothing and leave the environment alone, and lead along every relation
that allows this (`Lax`).  A computation that leaves scopes, environment and breaks alone is
`Calm`, and its triple is the one it has from `Keeps`.
-/

import GradualTyping.Proofs.Sound.Units

namespace GradualTyping

open TypeTable List

/-- A state of checking that holds types of a sound table, between evaluations. -/
structure Stands (s : CheckState) (t : TypeTable) : Prop where
  sound : t.Sound
  rest : t.evaluating = []
  below : Below t.size s

/-- From a state and a table two computations do the same, and what they leave
satisfies `Q`. -/
structure Steps {α : Type} (s : CheckState) (t : TypeTable) (c c' : CheckM α)
    (Q : α → CheckState → TypeTable → Prop) : Prop where
  same : c s t = c' s t
  stands : Stands (c s t).1.2 (c s t).2
  continues : t.Continues (c s t).2
  strict : (c s t).1.2.requireExhaustiveSwitch = s.requireExhaustiveSwitch
  post : Q (c s t).1.1 (c s t).1.2 (c s t).2

/-- Two stacks of the same height that differ at most in their innermost entries. -/
structure SameOuter {α : Type} (l l' : List α) : Prop where
  length : l'.length = l.length
  tail : l'.tail = l.tail

namespace SameOuter

variable {α : Type} {l l' l'' : List α}

theorem refl (l : List α) : SameOuter l l := ⟨rfl, rfl⟩

theorem trans (h : SameOuter l l') (h' : SameOuter l' l'') : SameOuter l l'' :=
  ⟨h'.length.trans h.length, h'.tail.trans h.tail⟩

theorem of_eq (h : l' = l) : SameOuter l l' := h ▸ .refl _

theorem cons (a b : α) (l : List α) : SameOuter (a :: l) (b :: l) := ⟨rfl, rfl⟩

theorem ne_nil (h : SameOuter l l') (hl : l ≠ []) : l' ≠ [] := by
  rw [ne_eq, ← length_eq_zero_iff, h.length, length_eq_zero_iff]
  exact hl

end SameOuter

/-- Nothing is pushed or popped, and what is known of variables is the same. -/
structure Still (s s' : CheckState) : Prop where
  strict : s'.requireExhaustiveSwitch = s.requireExhaustiveSwitch
  scopes : s'.scopes = s.scopes
  env : s'.env = s.env
  breaks : s'.breaks = s.breaks
  typeScopes : s'.typeScopes = s.typeScopes
  thisType : s'.thisType = s.thisType
  functions : SameOuter s.functions s'.functions

/-- A relation of states that quiet steps have and that can be put together. -/
class Lax (R : CheckState → CheckState → Prop) : Prop where
  still {s s' : CheckState} : Still s s' → R s s'
  trans {s s' s'' : CheckState} : R s s' → R s' s'' → R s s''

/-- From every state a computation leads to one in relation to it, and its answer
satisfies `Q`. -/
def Leads {α : Type} (R : CheckState → CheckState → Prop) (c : CheckM α) (Q : α → Prop) : Prop :=
  ∀ s t, R s (c s t).1.2 ∧ Q (c s t).1.1

/-- From every state a computation leads to one in relation to it. -/
abbrev Does {α : Type} (R : CheckState → CheckState → Prop) (c : CheckM α) : Prop :=
  Leads R c fun _ => True

/-- The parts of the state that tell what is known of variables are the same. -/
structure Alike (s s' : CheckState) : Prop where
  strict : s'.requireExhaustiveSwitch = s.requireExhaustiveSwitch
  scopes : s'.scopes = s.scopes
  env : s'.env = s.env
  breaks : s'.breaks = s.breaks

theorem Alike.trans {s s' s'' : CheckState} (h : Alike s s') (h' : Alike s' s'') : Alike s s'' :=
  ⟨h'.strict.trans h.strict, h'.scopes.trans h.scopes, h'.env.trans h.env, h'.breaks.trans h.breaks⟩

instance : Lax Alike := ⟨fun h => ⟨h.strict, h.scopes, h.env, h.breaks⟩, .trans⟩

/-- From every state a computation leaves what is known of variables alone. -/
abbrev Calm {α : Type} (c : CheckM α) : Prop := Does Alike c

namespace Steps

variable {α β : Type} {s : CheckState} {t : TypeTable} {c c' : CheckM α} {f f' : α → CheckM β}
variable {γ : Type}
  {Q : α → CheckState → TypeTable → Prop} {R : β → CheckState → TypeTable → Prop}

theorem pure {a : α} (h : Stands s t) (hq : Q a s t) :
    Steps s t (Pure.pure a : CheckM α) (Pure.pure a) Q :=
  ⟨rfl, h, .refl t, rfl, hq⟩

theorem bind (h : Steps s t c c' Q)
    (k : ∀ a s' t', Stands s' t' → t.Continues t' → Q a s' t' → Steps s' t' (f a) (f' a) R) :
    Steps s t (c >>= f) (c' >>= f') R := by
  have h' := k _ _ _ h.stands h.continues h.post
  refine ⟨?_, h'.stands, h.continues.trans h'.continues, h'.strict.trans h.strict, h'.post⟩
  show f (c s t).1.1 (c s t).1.2 (c s t).2 = f' (c' s t).1.1 (c' s t).1.2 (c' s t).2
  rw [← h.same]
  exact h'.same

/-- What holds where the computation has ended. -/
theorem run (h : Steps s t c c' Q) {a : α} {s' : CheckState} {t' : TypeTable}
    (run : c s t = ((a, s'), t')) : Stands s' t' ∧ t.Continues t' ∧ Q a s' t' := by
  obtain ⟨-, stands, continues, -, post⟩ := h
  rw [run] at stands continues post
  exact ⟨stands, continues, post⟩

theorem mono {R : α → CheckState → TypeTable → Prop} (h : Steps s t c c' Q)
    (hR : ∀ a s' t', Stands s' t' → t.Continues t' → Q a s' t' → R a s' t') : Steps s t c c' R :=
  ⟨h.same, h.stands, h.continues, h.strict, hR _ _ _ h.stands h.continues h.post⟩

theorem map {g : α → β} (h : Steps s t c c' Q)
    (hg : ∀ a s' t', Stands s' t' → t.Continues t' → Q a s' t' → R (g a) s' t') :
    Steps s t (g <$> c) (g <$> c') R := by
  rw [← bind_pure_comp, ← bind_pure_comp]
  exact h.bind fun a s' t' st' g' hq => .pure st' (hg a s' t' st' g' hq)

/-- A calm computation. -/
theorem calm {K : TypeTable → α → Prop} {A : α → Prop} (st : Stands s t) (k : Keeps Continues t c K)
    (hc : Leads Alike c A) : Steps s t c c fun a s' t' => K t' a ∧ A a ∧ Alike s s' :=
  have h := k s st.below
  ⟨rfl, ⟨h.sound, h.related.evaluating.trans st.rest, h.post.2⟩, h.related,
    (hc s t).1.strict, h.post.1, (hc s t).2, (hc s t).1⟩

/-- An operation on the table. -/
theorem lift {K : TypeTable → α → Prop} {o : TableM α} (st : Stands s t)
    (k : Leaves Continues t o K) :
    Steps s t (liftM o : CheckM α) (liftM o) fun a s' t' => K t' a ∧ s' = s :=
  ⟨rfl, ⟨k.sound, k.related.evaluating.trans st.rest, (Along.grows k.related).below st.below⟩,
    k.related, rfl, k.post, rfl⟩

/-- Read the state. -/
theorem get {f f' : CheckState → CheckM β} (k : Steps s t (f s) (f' s) R) :
    Steps s t (MonadStateOf.get >>= f) (MonadStateOf.get >>= f') R :=
  ⟨k.same, k.stands, k.continues, k.strict, k.post⟩

/-- Read the table. -/
theorem getTable {f f' : TypeTable → CheckM β} (k : Steps s t (f t) (f' t) R) :
    Steps s t (getThe TypeTable >>= f) (getThe TypeTable >>= f') R :=
  ⟨k.same, k.stands, k.continues, k.strict, k.post⟩

theorem change {g : CheckState → CheckState} {Q : PUnit → CheckState → TypeTable → Prop}
    (st : Stands s t) (h : t.Has (g s)) (hq : Q ⟨⟩ (g s) t)
    (strict : (g s).requireExhaustiveSwitch = s.requireExhaustiveSwitch := by rfl) :
    Steps s t (modify g : CheckM PUnit) (modify g) Q :=
  ⟨rfl, ⟨st.sound, st.rest, h⟩, .refl t, strict, hq⟩

/-- A loop keeps what each of its steps keeps. -/
theorem forM {xs : List γ} {f f' : γ → CheckM PUnit}
    {J : CheckState → TypeTable → Prop} (st : Stands s t) (start : J s t)
    (h : ∀ x ∈ xs, ∀ s' t', Stands s' t' → t.Continues t' → J s' t' →
      Steps s' t' (f x) (f' x) fun _ s'' t'' => J s'' t'') :
    Steps s t (xs.forM f) (xs.forM f') fun _ s' t' => J s' t' := by
  induction xs generalizing s t with
  | nil => exact .pure st start
  | cons x xs ih =>
    refine (h x (.head _) s t st (.refl t) start).bind fun _ s1 t1 st1 g1 h1 => ?_
    exact ih st1 h1 fun y hy s' t' st' g' h' => h y (.tail _ hy) s' t' st' (g1.trans g') h'

theorem mapM [Bounded α] {xs : List γ} {f f' : γ → CheckM α}
    {J : CheckState → TypeTable → Prop} (st : Stands s t) (start : J s t)
    (h : ∀ x ∈ xs, ∀ s' t', Stands s' t' → t.Continues t' → J s' t' →
      Steps s' t' (f x) (f' x) fun a s'' t'' => t''.Has a ∧ J s'' t'') :
    Steps s t (xs.mapM f) (xs.mapM f') fun as s' t' => t'.Has as ∧ J s' t' := by
  induction xs generalizing s t with
  | nil => exact .pure st ⟨below_nil, start⟩
  | cons x xs ih =>
    rw [mapM_cons, mapM_cons]
    refine (h x (.head _) s t st (.refl t) start).bind fun a s1 t1 st1 g1 h1 => ?_
    refine (ih st1 h1.2 fun y hy s' t' st' g' h' =>
      h y (.tail _ hy) s' t' st' (g1.trans g') h').bind fun as s2 t2 st2 g2 h2 => ?_
    exact .pure st2 ⟨below_cons.2 ⟨g2 h1.1, h2.1⟩, h2.2⟩

theorem foldlM {xs : List γ} {f f' : α → γ → CheckM α} {init : α}
    {J : α → CheckState → TypeTable → Prop} (st : Stands s t) (start : J init s t)
    (h : ∀ x ∈ xs, ∀ a s' t', Stands s' t' → t.Continues t' → J a s' t' →
      Steps s' t' (f a x) (f' a x) J) : Steps s t (xs.foldlM f init) (xs.foldlM f' init) J := by
  induction xs generalizing s t init with
  | nil => exact .pure st start
  | cons x xs ih =>
    rw [foldlM_cons, foldlM_cons]
    refine (h x (.head _) init s t st (.refl t) start).bind fun a s1 t1 st1 g1 h1 => ?_
    exact ih st1 h1 fun y hy b s' t' st' g' h' => h y (.tail _ hy) b s' t' st' (g1.trans g') h'

theorem mapOption [Bounded α] {o : Option γ} {f f' : γ → CheckM α}
    {J : CheckState → TypeTable → Prop} (st : Stands s t) (start : J s t)
    (h : ∀ x, o = some x → Steps s t (f x) (f' x) fun a s' t' => t'.Has a ∧ J s' t') :
    Steps s t (o.mapM f) (o.mapM f') fun a s' t' => t'.Has a ∧ J s' t' := by
  cases o with
  | none => exact .pure st ⟨below_none, start⟩
  | some x => exact (h x rfl).map fun _ _ _ _ _ h => ⟨below_some.2 h.1, h.2⟩

end Steps

/-! ### Where computations lead -/

section Leads

variable {R : CheckState → CheckState → Prop}

namespace Leads

variable {α β : Type} {c : CheckM α} {f : α → CheckM β} {A : α → Prop} {B : β → Prop}

theorem mono {A' : α → Prop} (h : Leads R c A) (hA : ∀ a, A a → A' a) : Leads R c A' :=
  fun s t => ⟨(h s t).1, hA _ (h s t).2⟩

theorem does (h : Leads R c A) : Does R c := h.mono fun _ _ => trivial

theorem get {f : CheckState → CheckM β} (k : ∀ s, Leads R (f s) B) :
    Leads R (MonadStateOf.get >>= f) B :=
  fun s t => k s s t

theorem change {g : CheckState → CheckState} (h : ∀ s, R s (g s)) : Does R (modify g : CheckM PUnit) :=
  fun s _ => ⟨h s, trivial⟩

end Leads

variable [Lax R]

namespace Leads

variable {α β : Type} {c : CheckM α} {f : α → CheckM β} {A : α → Prop} {B : β → Prop}
variable {γ : Type}

theorem pure {a : α} (h : A a) : Leads R (Pure.pure a : CheckM α) A :=
  fun _ _ => ⟨Lax.still ⟨rfl, rfl, rfl, rfl, rfl, rfl, .refl _⟩, h⟩

theorem bind (h : Leads R c A) (k : ∀ a, A a → Leads R (f a) B) : Leads R (c >>= f) B := fun s t =>
  have h1 := h s t
  have h2 := k _ h1.2 (c s t).1.2 (c s t).2
  ⟨Lax.trans h1.1 h2.1, h2.2⟩

/-- The computation goes on with whatever the answer is. -/
theorem next (h : Does R c) (k : ∀ a, Leads R (f a) B) : Leads R (c >>= f) B :=
  h.bind fun a _ => k a

theorem lift (o : TableM α) : Does R (liftM o : CheckM α) :=
  fun _ _ => ⟨Lax.still ⟨rfl, rfl, rfl, rfl, rfl, rfl, .refl _⟩, trivial⟩

theorem still {g : CheckState → CheckState} (h : ∀ s, Still s (g s)) :
    Does R (modify g : CheckM PUnit) :=
  change fun s => Lax.still (h s)

theorem map {g : α → β} (h : Leads R c A) (hg : ∀ a, A a → B (g a)) : Leads R (g <$> c) B := by
  rw [← bind_pure_comp]
  exact h.bind fun a ha => .pure (hg a ha)

theorem forM {xs : List γ} {f : γ → CheckM PUnit} (h : ∀ x ∈ xs, Does R (f x)) :
    Does R (xs.forM f) := by
  induction xs with
  | nil => exact .pure trivial
  | cons x xs ih => exact (h x (.head _)).bind fun _ _ => ih fun y hy => h y (.tail _ hy)

theorem mapM {xs : List γ} {f : γ → CheckM α} (h : ∀ x ∈ xs, Leads R (f x) A) :
    Leads R (xs.mapM f) fun as => ∀ a ∈ as, A a := by
  induction xs with
  | nil => exact .pure fun _ h => nomatch h
  | cons x xs ih =>
    rw [mapM_cons]
    refine (h x (.head _)).bind fun a ha => ?_
    exact (ih fun y hy => h y (.tail _ hy)).bind fun as has => .pure (forall_mem_cons.2 ⟨ha, has⟩)

theorem foldlM {xs : List γ} {f : β → γ → CheckM β} (h : ∀ b, ∀ x ∈ xs, Does R (f b x))
    (init : β) : Does R (xs.foldlM f init) := by
  induction xs generalizing init with
  | nil => exact .pure trivial
  | cons x xs ih =>
    rw [foldlM_cons]
    exact .next (h init x (.head _)) (ih fun b y hy => h b y (.tail _ hy))

theorem mapOption {o : Option γ} {f : γ → CheckM α} (h : ∀ x, o = some x → Does R (f x)) :
    Does R (o.mapM f) := by
  cases o with
  | none => exact .pure trivial
  | some x => exact (h x rfl).map fun _ _ => trivial

end Leads

namespace Checking

variable {span : Span}
variable {type source target : TypeId}

theorem does_report (p : Problem) : Does R (report p span) :=
  .still fun _ => ⟨rfl, rfl, rfl, rfl, rfl, rfl, .refl _⟩

theorem does_recordFrom (kind : FlowKind) (preds : List Nat) (span : Span) :
    Does R (recordFrom kind preds span) :=
  .still fun _ => ⟨rfl, rfl, rfl, rfl, rfl, rfl, .refl _⟩

theorem does_addReturn : Does R (addReturn type) := by
  refine .still fun s => ⟨rfl, rfl, rfl, rfl, rfl, rfl, ?_⟩
  dsimp only
  split
  · next h => exact .of_eq h.symm
  · next f outer h => exact h ▸ .cons ..

theorem does_errorCount : Does R errorCount := .get fun _ => .pure trivial

theorem does_lowering {α : Type} (span : Span) (body : LowerM α) : Does R (lowering span body) :=
  .get fun _ => (Leads.lift _).bind fun _ _ =>
    Leads.bind (A := fun _ => True) (.still fun _ => ⟨rfl, rfl, rfl, rfl, rfl, rfl, .refl _⟩) fun _ _ => .pure trivial

theorem does_lower {type : TypeExpr} : Does R (lower type span) := does_lowering span _

theorem does_isAbandoned {mark : Nat} : Does R (isAbandoned mark span) := by
  refine .get fun s => ?_
  split
  · exact .pure trivial
  · refine (Leads.lift takeDepthError).bind fun e _ => ?_
    split
    · exact .pure trivial
    · exact Leads.bind (A := fun _ => True) (.still fun _ => ⟨rfl, rfl, rfl, rfl, rfl, rfl, .refl _⟩)
        fun _ _ => .pure trivial

theorem does_reportMismatch {note : Option String} :
    Does R (reportMismatch source target note span) :=
  (Leads.lift get).bind fun _ _ => does_report _

theorem does_fits {view : TypeId} : Does R (fits source view target span) := by
  refine (Leads.lift (isSubtype source view)).bind fun b _ => ?_
  split
  · exact .pure trivial
  · refine (Leads.lift depthExceeded).bind fun b _ => ?_
    extract_lets rejected
    split
    · exact .pure trivial
    · exact does_reportMismatch.bind fun _ _ => .pure trivial

theorem does_valueFits {e : Expr} : Does R (valueFits e source target) := by
  unfold valueFits
  extract_lets against
  split
  · exact (Leads.lift (freshView target)).bind fun view _ => does_fits
  · exact does_fits

theorem does_expectNever {e : Expr} {actual : TypeId} : Does R (expectNever e actual) := by
  refine (Leads.lift (evaluateNode actual)).bind fun node _ => ?_
  split
  · exact .pure trivial
  · exact .pure trivial
  · exact (Leads.lift (describeMembers actual)).bind fun _ _ => does_report _

theorem does_propertyType {name : String} : Does R (propertyType type name span) := by
  refine (Leads.lift (property? type name)).bind fun found _ => ?_
  split
  · exact .pure trivial
  · exact (Leads.lift (display type)).bind fun _ _ =>
      (does_report _).bind fun _ _ => .pure trivial

theorem does_indexedType {index : TypeId} : Does R (indexedType type index span) := by
  refine (Leads.lift (evaluateNode type)).bind fun node _ =>
    (Leads.lift (resolve index)).bind fun key _ => ?_
  dsimp only
  split
  · exact .pure trivial
  · exact .pure trivial
  · split
    · exact .pure trivial
    · exact .lift _
  · exact .lift _
  · exact does_propertyType
  · exact .pure trivial
  · exact .pure trivial

theorem does_checkBounds (σ : Substitution) {param : TypeId} :
    Does R (checkBounds σ span param) := by
  refine (Leads.lift get).bind fun t _ => ?_
  split
  · split
    · refine (Leads.lift (substitute σ _)).bind fun bound _ => ?_
      refine (Leads.lift (isSubtype _ bound)).bind fun b _ => ?_
      split
      · exact .pure trivial
      · exact (Leads.lift get).bind fun _ _ => does_report _
    · exact .pure trivial
  · exact .pure trivial

theorem does_instantiateExplicit {f : Signature} {args : List TypeId} {callee : Expr}
    : Does R (instantiateExplicit f args callee span) := by
  refine (Leads.lift get).bind fun t _ => ?_
  extract_lets required
  split
  · exact (does_report _).bind fun _ _ => .lift _
  · exact (Leads.lift _).bind fun σ _ => Leads.bind (A := fun _ => True)
      (.forM fun param _ => does_checkBounds σ) fun _ _ => .lift _

theorem does_instantiateInferred {f : Signature} {argTypes : List TypeId} :
    Does R (instantiateInferred f argTypes span) :=
  (Leads.lift (inferCall f argTypes)).bind fun _ _ => (Leads.lift get).bind fun _ _ =>
    Leads.bind (A := fun _ => True) (.forM fun _ _ => does_report _) fun _ _ => .lift _

theorem does_exprParams {contextual : Option Signature} {params : List Param} :
    Does R (exprParams contextual params) := by
  refine (Leads.mapM (A := fun _ => True) fun p _ => ?_).mono fun _ _ => trivial
  dsimp only
  split
  · exact does_lower.bind fun _ _ => .pure trivial
  · exact .pure trivial

theorem FunctionSite.does_expectedResult (site : FunctionSite) : Does R site.expectedResult := by
  unfold expectedResult
  extract_lets result
  split
  · exact .pure trivial
  split
  · exact .pure trivial
  · refine (Leads.lift (declaredAsyncResult? result)).bind fun inner _ => ?_
    split
    · exact .pure trivial
    · exact (Leads.lift (display result)).bind fun _ _ =>
        (does_report _).bind fun _ _ => .pure trivial

theorem does_reportMissing {subject : SwitchSubject} {declared residual : TypeId} :
    Does R (reportMissing subject declared residual span) := by
  refine .get fun s => ?_
  split
  · refine (Leads.lift (subject.exhaustiveness declared residual false)).bind fun found _ => ?_
    split
    · exact does_report _
    · exact .pure trivial
  · exact .pure trivial

end Checking

end Leads

namespace Checking

theorem calm_pushTypeScope (scope : TypeScope) : Calm (pushTypeScope scope) :=
  .change fun _ => ⟨rfl, rfl, rfl, rfl⟩

theorem calm_popTypeScope : Calm popTypeScope := .change fun _ => ⟨rfl, rfl, rfl, rfl⟩

theorem calm_pushTypeParams (decls : TypeParams) {span : Span} : Calm (pushTypeParams decls span) :=
  (calm_pushTypeScope []).bind fun _ _ => (does_lowering span _).bind fun _ _ =>
    calm_popTypeScope.bind fun _ _ => (calm_pushTypeScope _).bind fun _ _ => .pure trivial

end Checking

end GradualTyping
