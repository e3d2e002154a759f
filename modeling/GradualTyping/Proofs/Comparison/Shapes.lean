/-
# Types of one shape are subtypes of each other

A union keeps one of the members that have one shape (`identical`).  A member is
dropped only for one that it is a subtype of and that is a subtype of it.  Both
recursions go down the same nodes: objects field by field, arrays, promises, and
functions part by part.  Where they meet one type the comparison is settled, so the
induction is on the nesting that is still compared for shape (`affirms_alike`).

A function with type parameters is compared after its parameters were renamed to
those of the other function, which are the same: the renaming changes nothing
(`keeps_adapt`).  Objects with open fields are left out: such an object is below
another only if its other fields have the type of the open ones.
-/

import GradualTyping.Checking.Assignability
import GradualTyping.Proofs.Comparison.Affirms
import GradualTyping.Proofs.Occurrences

namespace GradualTyping

open TypeTable Subtyping List Substitution

/-! ### Rules for affirmed comparisons -/

section Affirms

variable {final t t' : TypeTable} {n : Nat} {x y : TypeId} {ask : Ask TableM}
  {R : TypeId → TypeId → Prop}

/-- Questions about related types are affirmed on every table that a run leads to. -/
def Affirming (final t : TypeTable) (ask : Ask TableM) (R : TypeId → TypeId → Prop) : Prop :=
  ∀ {x y : TypeId} {t1 : TypeTable}, R x y → t1.Sound → t.Runs t1 → Affirms final t1 (ask x y)

theorem Affirms.both {c d : TableM Bool} (hc : Affirms final t c)
    (hd : ∀ t1, t1.Sound → t.Runs t1 → Affirms final t1 d) :
    Affirms final t (do if ← c then d else return false) := by
  refine hc.bind fun t1 holds s1 r1 yes => ?_
  cases holds with
  | true => exact hd t1 s1 r1
  | false => exact .pure s1 yes

theorem affirms_bothWays (s : t.Sound) (asks : Affirming final t ask R) (hxy : R x y) (hyx : R y x) :
    Affirms final t (bothWays ask x y) := by
  unfold bothWays
  split
  · exact .pure s fun _ => rfl
  · exact .both (asks hxy s (.refl t)) fun t1 s1 r1 => asks hyx s1 r1

/-- Objects are compared by the fields of the second, which the first has with the same
modifiers. -/
theorem affirms_objects (s : t.Sound) (asks : Affirming final t ask R) (symm : ∀ x y, R x y → R y x)
    {a b : ObjectShape} (closed : b.index = none) (fields : ∀ q ∈ b.properties, ∃ p,
      a.property? q.name = some p ∧ p.optional = q.optional ∧ R p.type q.type) :
    Affirms final t (objects ask a b) := by
  refine Tabled.Keeps.read rfl ?_
  rw [closed]
  refine Affirms.both (.allM s fun q hq t1 s1 r1 => ?_) fun t1 s1 _ => .pure s1 fun _ => rfl
  obtain ⟨p, found, optional, related⟩ := fields q hq
  have modifiers : (p.optional && !q.optional) = false := by
    rw [optional, Bool.and_not_self]
  rw [fieldFits, found]
  dsimp only
  rw [modifiers]
  split
  · next h => cases h
  split
  · exact asks related s1 r1
  · exact affirms_bothWays s1 (fun h s2 r2 => asks h s2 (r1.trans r2)) related (symm _ _ related)

theorem mem_setEntry {e : TypeId × TypeId} {es : List (TypeId × TypeId)}
    (h : e ∈ setEntry x y es) : e = (x, y) ∨ e ∈ es := by
  fun_induction setEntry x y es with
  | case1 => exact .inl (mem_singleton.1 h)
  | case2 => exact (mem_cons.1 h).imp_right (.tail _)
  | case3 _ _ _ _ ih =>
    rcases mem_cons.1 h with rfl | h
    · exact .inr (.head _)
    · exact (ih h).imp_right (.tail _)

theorem mem_of_get?_ofList {es : List (TypeId × TypeId)} (h : (ofList es).get? x = some y) :
    (x, y) ∈ es := by
  have entries : ∀ e ∈ (ofList es).entries, e ∈ es := by
    clear h
    induction es using List.reverseRecOn with
    | nil => exact fun _ h => h
    | append_singleton es e ih =>
      intro x hx
      rw [ofList, foldl_append] at hx
      refine mem_append.2 ((mem_setEntry hx).symm.imp (ih x) mem_singleton.2)
  obtain ⟨e, he, rfl⟩ := Option.map_eq_some_iff.1 h
  have key := find?_some he
  obtain rfl := eq_of_beq key
  exact entries e (mem_of_find?_eq_some he)

/-- **A renaming of type parameters to themselves changes nothing.** -/
theorem keeps_adapt (s : t.Sound) (rest : AtRest n t) {f g : Signature} (hf : t.Has f)
    (same : f.typeParams = g.typeParams) (params : ∀ k ∈ f.typeParams, ∃ p, t.resolve k = .param p) :
    Keeps Runs t (adapt (.withLevels n) f g) fun _ f' => ∃ ps, f' = { f with typeParams := ps } := by
  unfold adapt
  split
  · exact .pure s ⟨f.typeParams, rfl⟩
  rw [if_pos (congrArg List.length same), ← same]
  have hf' : t.Has (Ty.function { f with typeParams := [] }) := ⟨below_nil, hf.2⟩
  refine (keeps_intern s hf' trivial rfl).bind fun t1 id s1 r1 node => ?_
  have fixes : Substitution.Fixes t1 (.ofList (f.typeParams.zip f.typeParams)) id := by
    intro k v _ hv
    have pair : (k, v) ∈ f.typeParams.map fun p => (p, p) :=
      zipWith_self ▸ mem_of_get?_ofList hv
    obtain ⟨p, hp, same⟩ := mem_map.1 pair
    obtain ⟨rfl, rfl⟩ := Prod.mk.inj same
    rw [r1.resolve (hf.1 p hp)]
    exact ⟨rfl, params p hp⟩
  refine (keeps_substitute_same s1 (rest.runs r1).levels (below_of_get? node)
    fixes).bind ?_
  rintro t2 id s2 r2 ⟨-, rfl⟩
  refine Tabled.Keeps.read rfl (.pure s2 ⟨[], ?_⟩)
  have node2 : (GradualTyping.resolve id t2).1 = .function { f with typeParams := [] } :=
    resolve_of_get? (r2.toGrows.get? node)
  rw [node2]
  rfl

/-- Signatures whose parts are related, place by place. -/
structure Signature.Related (f : Signature) (R : TypeId → TypeId → Prop) (g : Signature) : Prop where
  count : f.params.length = g.params.length
  param (i : Nat) : Option.Rel R (f.paramAt? i) (g.paramAt? i)
  rest : Option.Rel R f.rest g.rest
  result : R f.result g.result
  predicate : f.predicate = g.predicate
  subject : ∀ p ∈ f.predicate, R p.type p.type

theorem Signature.Related.predicates {f g : Signature} (h : f.Related R g) (s : t.Sound)
    (asks : Affirming final t ask R) : Affirms final t (predicates ask f g) := by
  rw [Subtyping.predicates, ← h.predicate]
  cases hp : f.predicate with
  | none => exact .pure s fun _ => rfl
  | some p =>
    dsimp only
    rw [if_neg (by simp)]
    exact asks (h.subject p hp) s (.refl t)

/-- Functions are compared part by part, with the parameters the other way round. -/
theorem affirms_functions (s : t.Sound) (rest : AtRest n t) (asks : Affirming final t ask R)
    (symm : ∀ x y, R x y → R y x) {f g : Signature} (hf : t.Has f) (kind : f.kind = g.kind)
    (same : f.typeParams = g.typeParams) (generic : ∀ k ∈ f.typeParams, ∃ p, t.resolve k = .param p)
    (parts : f.Related R g) : Affirms final t (functions (.withLevels n) ask f g) := by
  unfold functions
  rw [if_neg (not_not.2 kind)]
  refine (keeps_adapt s rest hf same generic).bind ?_
  rintro t1 _ s1 r1 ⟨ps, rfl⟩
  have parts : Signature.Related { f with typeParams := ps } R g := { parts with }
  generalize ({ f with typeParams := ps } : Signature) = f at parts
  have enough : ¬ g.params.length < f.minParams :=
    Nat.not_lt.2 (parts.count ▸ (takeWhile_sublist _).length_le)
  rw [decide_eq_false enough, Bool.and_false, if_neg Bool.false_ne_true]
  have asks {x y t2} (h : R x y) (s2 : t2.Sound) (r2 : t1.Runs t2) : Affirms final t2 (ask x y) :=
    asks h s2 (r1.trans r2)
  refine Affirms.both (.allM s1 fun i _ t2 s2 r2 => ?_) fun t2 s2 r2 => ?_
  · have param := parts.param i
    unfold paramFits
    generalize f.paramAt? i = x, g.paramAt? i = y at param
    cases param with
    | some h => exact asks (symm _ _ h) s2 r2
    | none => exact .pure s2 fun _ => rfl
  have behind (t3 : TypeTable) (s3 : t3.Sound) (r3 : t2.Runs t3) : Affirms final t3 (do
      if ← predicates ask f g then
        if g.result = .void then return true else ask f.result g.result
      else return false) := by
    refine .both (parts.predicates s3 fun h s4 r4 => asks h s4 ((r2.trans r3).trans r4))
      fun t4 s4 r4 => ?_
    split
    · exact .pure s4 fun _ => rfl
    · exact asks parts.result s4 ((r2.trans r3).trans r4)
  have rests := parts.rest
  generalize f.rest = x, g.rest = y at rests
  cases rests with
  | some h => exact .both (asks (symm _ _ h) s2 r2) behind
  | none => exact behind t2 s2 (.refl t2)

end Affirms

/-! ### Types of one shape -/

namespace TypeTable

theorem bothOr_rel {same : TypeId → TypeId → Bool} {x y : Option TypeId}
    (h : bothOr same x y = true) : Option.Rel (same · · = true) x y := by
  cases x <;> cases y
  · exact .none
  · cases h
  · cases h
  · exact .some h

theorem rel_mono {α : Type} {P Q : α → α → Prop} {x y : Option α} (h : Option.Rel P x y)
    (imp : ∀ a ∈ x, ∀ b ∈ y, P a b → Q a b) : Option.Rel Q x y := by
  cases h with
  | some h => exact .some (imp _ rfl _ rfl h)
  | none => exact .none

/-- Lists that agree place by place. -/
theorem pairwise_rel {α : Type} {same : α → α → Bool} {xs ys : List α}
    (h : pairwise same xs ys = true) :
    xs.length = ys.length ∧ ∀ i : Nat, Option.Rel (same · · = true) xs[i]? ys[i]? := by
  fun_induction pairwise same xs ys with
  | case1 => exact ⟨rfl, fun _ => .none⟩
  | case2 x xs y ys ih =>
    obtain ⟨hxy, h⟩ := Bool.and_eq_true_iff.1 h
    refine ⟨congrArg Nat.succ (ih h).1, fun i => ?_⟩
    cases i with
    | zero => exact .some hxy
    | succ i => exact (ih h).2 i
  | case3 => cases h

/-- A node other than an object with open fields or a function with type parameters that are no
parameters. -/
def Ordinary (t : TypeTable) : Ty → Prop
  | .object o => o.index = none
  | .function f => ∀ k ∈ f.typeParams, ∃ p, t.resolve k = .param p
  | _ => True

/-- A type of the table in which ordinary nodes occur. -/
structure Closed (t : TypeTable) (id : TypeId) : Prop where
  has : t.Has id
  ordinary {m : TypeId} : t.Occurs m id → t.Ordinary (t.resolve m)

/-- Two closed types of one shape, down to a nesting. -/
structure Alike (t : TypeTable) (n : Nat) (a b : TypeId) : Prop where
  left : t.Closed a
  right : t.Closed b
  identical : t.identicalWithin n a b = true

variable {t : TypeTable} {a b x y : TypeId} {n : Nat}

theorem Closed.part (h : t.Closed a) (s : t.Sound) (hx : x ∈ (t.resolve a).parts) : t.Closed x :=
  ⟨s.below_part hx, fun ho => h.ordinary (.part hx ho)⟩

namespace Alike

theorem symm (h : t.Alike n a b) : t.Alike n b a :=
  ⟨h.right, h.left, (identicalWithin_comm t n b a).trans h.identical⟩

theorem refl (h : t.Closed a) : t.Alike n a a := by
  refine ⟨h, h, ?_⟩
  cases n with
  | zero => exact beq_self_eq_true a
  | succ n => rw [identicalWithin, beq_self_eq_true, Bool.true_or]

theorem part (h : t.Alike (n + 1) a b) (s : t.Sound) (hx : x ∈ (t.resolve a).parts)
    (hy : y ∈ (t.resolve b).parts) (same : t.identicalWithin n x y = true) : t.Alike n x y :=
  ⟨h.left.part s hx, h.right.part s hy, same⟩

/-- Objects of one shape have fields of one shape. -/
theorem fields (h : t.Alike (n + 1) a b) (s : t.Sound) {o o' : ObjectShape}
    (ha : t.resolve a = .object o) (hb : t.resolve b = .object o')
    (same : identicalObjects (t.identicalWithin n) o o' = true) :
    ∀ q ∈ o'.properties, ∃ p, o.property? q.name = some p ∧ p.optional = q.optional ∧
      t.Alike n p.type q.type := by
  intro q hq
  obtain ⟨i, hi⟩ := getElem?_of_mem hq
  have rel := (pairwise_rel (Bool.and_eq_true_iff.1 same).1).2 i
  rw [hi] at rel
  cases hp : o.properties[i]? with
  | none => rw [hp] at rel; cases rel
  | some p =>
    rw [hp] at rel
    cases rel with
    | some rel =>
      simp only [Bool.and_eq_true, beq_iff_eq] at rel
      obtain ⟨⟨⟨name, optional⟩, -⟩, type⟩ := rel
      have hp := mem_of_getElem? hp
      have canonical : NamesIncrease o.properties := s.canonical_node ha
      refine ⟨p, name ▸ canonical.property? hp, optional, h.part s ?_ ?_ type⟩
      · exact ha ▸ mem_append_left _ (mem_map_of_mem hp)
      · exact hb ▸ mem_append_left _ (mem_map_of_mem hq)

theorem mem_signature {f : Signature} : x ∈ (Ty.function f).parts ↔
    (∃ p ∈ f.params, p.type = x) ∨ x ∈ f.rest ∨ x = f.result ∨ ∃ p ∈ f.predicate, p.type = x := by
  simp [Ty.parts, Signature.parts]

/-- Functions of one shape have parts of one shape. -/
theorem related (h : t.Alike (n + 1) a b) (s : t.Sound) {f g : Signature}
    (ha : t.resolve a = .function f) (hb : t.resolve b = .function g)
    (same : identicalFunctions (t.identicalWithin n) f g = true) :
    f.kind = g.kind ∧ f.typeParams = g.typeParams ∧ f.Related (t.Alike n) g := by
  simp only [identicalFunctions, Bool.and_eq_true, beq_iff_eq] at same
  obtain ⟨⟨⟨⟨⟨kind, typeParams⟩, params⟩, rest⟩, result⟩, predicate⟩ := same
  obtain ⟨count, params⟩ := pairwise_rel params
  have alike {x y : TypeId} (hx : x ∈ (Ty.function f).parts) (hy : y ∈ (Ty.function g).parts) :
      t.identicalWithin n x y = true → t.Alike n x y :=
    h.part s (ha ▸ hx) (hb ▸ hy)
  have rest : Option.Rel (t.Alike n) f.rest g.rest := rel_mono (bothOr_rel rest) fun x hx y hy =>
    alike (mem_signature.2 (.inr (.inl hx))) (mem_signature.2 (.inr (.inl hy)))
  refine ⟨kind, typeParams, count, fun i => ?_, rest, ?_, predicate, fun p hp => ?_⟩
  · have param : Option.Rel (fun p q : Parameter => t.Alike n p.type q.type)
        f.params[i]? g.params[i]? := by
      refine rel_mono (params i) fun p hp q hq same => ?_
      exact alike (mem_signature.2 (.inl ⟨p, mem_of_getElem? hp, rfl⟩))
        (mem_signature.2 (.inl ⟨q, mem_of_getElem? hq, rfl⟩)) (Bool.and_eq_true_iff.1 same).2
    unfold Signature.paramAt?
    generalize f.params[i]? = x, g.params[i]? = y at param
    cases param with
    | some h => exact .some h
    | none => exact rest
  · exact alike (mem_signature.2 (.inr (.inr (.inl rfl)))) (mem_signature.2 (.inr (.inr (.inl rfl))))
      result
  · exact refl (h.left.part s (ha ▸ mem_signature.2 (.inr (.inr (.inr ⟨p, hp, rfl⟩)))))

end Alike

end TypeTable

open TypeTable in
/-- **Types of one shape are affirmed**, on the way to any table. -/
theorem affirms_alike {t₀ t final : TypeTable} {n k : Nat} {a b : TypeId} (s₀ : t₀.Sound)
    (h : t₀.Alike k a b) (s : t.Sound) (g : t₀.Grows t) (rest : AtRest n t)
    (assumed : Assumptions) :
    Affirms final t ((Operations.withLevels n).isSubtype assumed a b) := by
  induction k generalizing t n a b assumed with
  | zero =>
    refine affirms_isSubtype s rest (g h.left.has) (g h.right.has) assumed (.inl ?_)
    exact settled_iff.2 (.inl (eq_of_beq h.identical))
  | succ k ih =>
    refine affirms_isSubtype s rest (g h.left.has) (g h.right.has) assumed ?_
    by_cases hab : a = b
    · exact .inl (settled_iff.2 (.inl hab))
    refine .inr ?_
    rintro n rfl
    have deeper : t₀.Grows t.deeper := ⟨g.1, g.2⟩
    have asks : Affirming final t.deeper ((Operations.withLevels n).isSubtype ((a, b) :: assumed))
        (t₀.Alike k) :=
      fun h s1 r1 => ih h s1 (deeper.trans r1) (rest.deeper.runs r1) _
    have same := h.identical
    rw [identicalWithin, beq_eq_false_iff_ne.2 hab, Bool.false_or] at same
    have hna : t.deeper.resolve a = t₀.resolve a := deeper.resolve h.left.has
    have hnb : t.deeper.resolve b = t₀.resolve b := deeper.resolve h.right.has
    have plain : needsEvaluation t.deeper a = false ∧ needsEvaluation t.deeper b = false := by
      unfold needsEvaluation
      rw [hna, hnb]
      split at same <;> simp_all [Ty.isReducible]
    refine .of_eq (clause_of_plain plain.1 plain.2) ?_
    rw [hna, hnb]
    split at same
    · next o o' ha hb =>
      rw [ha, hb]
      have closed := h.right.ordinary .here
      rw [hb] at closed
      exact affirms_objects s.deeper asks (fun _ _ h => h.symm) closed (h.fields s₀ ha hb same)
    · next ha hb =>
      rw [ha, hb]
      exact asks (h.part s₀ (ha ▸ .head _) (hb ▸ .head _) same) s.deeper (.refl _)
    · next ha hb =>
      rw [ha, hb]
      exact asks (h.part s₀ (ha ▸ .head _) (hb ▸ .head _) same) s.deeper (.refl _)
    · next f f' ha hb =>
      rw [ha, hb]
      obtain ⟨kind, typeParams, parts⟩ := h.related s₀ ha hb same
      have hf : t.Has f := g (ha ▸ s₀.below_resolve a : t₀.Has (Ty.function f))
      refine affirms_functions s.deeper rest.deeper asks (fun _ _ h => h.symm) hf kind typeParams
        (fun p hp => ?_) parts
      have ordinary := h.left.ordinary .here
      rw [ha] at ordinary
      obtain ⟨q, hq⟩ := ordinary p hp
      exact ⟨q, (g.resolve (below_of_get? (get?_of_resolve hq (by simp)))).trans hq⟩
    · cases same

namespace TypeTable

variable {t : TypeTable} {a b : TypeId}

/-- **Types of one shape are subtypes of each other**, whichever way fields are compared, unless
the guard trips: a union drops a member only for one that it can be used as. -/
theorem Reachable.isSubtype_of_identical (h : t.Reachable) (ha : t.Closed a) (hb : t.Closed b)
    (same : t.identical a b = true) :
    ((isSubtype a b t).2.Untripped → (isSubtype a b t).1 = true) ∧
      ((isSubtype b a t).2.Untripped → (isSubtype b a t).1 = true) := by
  have holds {x y : TypeId} (alike : t.Alike (t.limits.maxDepth + 1) x y)
      (untripped : (isSubtype x y t).2.Untripped) : (isSubtype x y t).1 = true := by
    have affirms : Affirms (isSubtype x y t).2 t (t.operations.isSubtype [] x y) :=
      affirms_alike h.sound alike h.sound (.refl t) (atRest_operations h.quiescent.evaluating) []
    exact affirms.post (.refl affirms.sound untripped)
  have alike : t.Alike (t.limits.maxDepth + 1) a b := ⟨ha, hb, same⟩
  exact ⟨holds alike, holds alike.symm⟩

theorem Closed.of_parts {ty : Ty} (node : t.resolve a = ty) (known : ty ≠ .never)
    (ordinary : t.Ordinary ty) (parts : ∀ x ∈ ty.parts, t.Closed x) : t.Closed a := by
  subst node
  refine ⟨below_of_get? (get?_of_resolve rfl known), fun {m} ho => ?_⟩
  cases ho with
  | here => exact ordinary
  | part hm ho => exact (parts _ hm).ordinary ho

set_option maxRecDepth 20000 in
/-- Objects with the method `<T>(x: T) => T` under two names of its parameter. -/
theorem isSubtype_of_identical_methods :
    let p := intern (.param { name := "T", scope := 0 }) (withLimits {})
    let method (name : String) : Signature :=
      { typeParams := [p.1], params := [{ name := name, type := p.1 }], result := p.1 }
    let f := functionOf (method "x") p.2
    let g := functionOf (method "y") f.2
    let a := objectOf [{ name := "same", type := f.1 }] none g.2
    let b := objectOf [{ name := "same", type := g.1 }] none a.2
    a.1 ≠ b.1 ∧ b.2.identical a.1 b.1 = true ∧
      (isSubtype a.1 b.1 b.2).1 = true ∧ (isSubtype b.1 a.1 b.2).1 = true := by
  intro p method f g a b
  have nodes : b.2.resolve p.1 = .param { name := "T", scope := 0 } ∧
      b.2.resolve f.1 = .function (method "x") ∧ b.2.resolve g.1 = .function (method "y") ∧
      b.2.resolve a.1 = .object { properties := [{ name := "same", type := f.1 }] } ∧
      b.2.resolve b.1 = .object { properties := [{ name := "same", type := g.1 }] } := by
    subst b a g f method p
    cbv
  have below : p.1.index < p.2.size ∧ p.1.index < f.2.size ∧ f.1.index < g.2.size ∧
      g.1.index < a.2.size := by
    subst a g f method p
    cbv
  have runs : (a.1 == b.1) = false ∧ b.2.identical a.1 b.1 = true ∧
      (isSubtype a.1 b.1 b.2).2.Untripped ∧ (isSubtype b.1 a.1 b.2).2.Untripped := by
    subst b a g f method p
    cbv
  obtain ⟨hp, hf, hg, ha, hb⟩ := nodes
  have reachable : b.2.Reachable := by
    have signature {n : Nat} {name : String} (h : p.1.index < n) : Below n (method name) :=
      ⟨below_singleton.2 h, below_singleton.2 h, below_none, h, below_none⟩
    have field {n : Nat} {id : TypeId} (h : id.index < n) :
        Below n [({ name := "same", type := id } : Property)] ∧ Below n (none : Option TypeId) :=
      ⟨below_singleton.2 h, below_none⟩
    exact (((((Reachable.start {}).step (.param _) ⟨below_none, below_none⟩).step
      (.function _) (signature below.1)).step (.function _) (signature below.2.1)).step
      (.object _ none) (field below.2.2.1)).step (.object _ none) (field below.2.2.2)
  clear_value b a g f p
  have param : b.2.Closed p.1 := .of_parts hp (by simp) trivial (forall_mem_nil _)
  have function {id : TypeId} {name : String} (node : b.2.resolve id = .function (method name)) :
      b.2.Closed id := by
    refine .of_parts node (by simp) (fun k hk => ⟨_, mem_singleton.1 hk ▸ hp⟩) fun x hx => ?_
    obtain rfl : x = p.1 := by simpa [Ty.parts, Signature.parts, method] using hx
    exact param
  have object {id m : TypeId} {name : String} (hm : b.2.resolve m = .function (method name))
      (node : b.2.resolve id = .object { properties := [{ name := "same", type := m }] }) :
      b.2.Closed id :=
    .of_parts node (by simp) rfl fun x hx => mem_singleton.1 hx ▸ function hm
  have both := reachable.isSubtype_of_identical (object hf ha) (object hg hb) runs.2.1
  exact ⟨ne_of_beq_false runs.1, runs.2.1, both.1 runs.2.2.1, both.2 runs.2.2.2⟩

set_option maxRecDepth 20000 in
/-- **The view of a fresh value rejects more**: of two members with one view the first is kept, to
which a field outside of an index signature is not assignable. -/
theorem freshView_rejects :
    let shape (name : String) : TableM TypeId := do
      let f ← functionOf { params := [{ name, type := .number }], result := .void }
      objectOf [{ name := "a", type := .number }, { name := "g", type := f }] (some .string)
    fresh? (do
      let p ← shape "p"
      let q ← shape "q"
      let source ← objectOf [{ name := "f", type := q }] none
      let target ← unionOf [← objectOf [{ name := "f", type := p, readonly := true }] none, source]
      return (← isSubtype source target, ← isSubtype source (← Checking.freshView target))) =
    some (true, false) := by
  cbv

end TypeTable

end GradualTyping
