/-
# The constructors are safe

Every way to make a node gives a position of the table and leaves the table sound:
`safe_intern` for nodes without normal form of their own, and one triple for each
constructor that normalises.  The intersection has a module of its own.  A node is
moreover found again on every later table (`stable_intern`).
-/

import GradualTyping.Proofs.Sound.Recall

namespace GradualTyping

open TypeTable List

variable {t : TypeTable}
variable {ty : Ty}

/-! ### Interning -/

section

variable (s : t.Sound) (hb : t.Has ty) (hc : t.Canonical ty)
include s hb hc

/-- **A node in canonical form, with its types in the table, can be interned.** -/
theorem keeps_intern (hv : ty.isVar = false) :
    Keeps Runs t (intern ty) fun t' id => t'.get? id = some ty :=
  ⟨s.insert hb hc (fun n e => by cases e ▸ hv), runs_insert t ty, s.indexed.get?_insert⟩

theorem safe_intern (hv : ty.isVar = false) : Safe t (intern ty) :=
  (keeps_intern s hb hc hv).mono fun _ _ _ _ h => below_of_get? h

/-- **A node is found again where it was made.** -/
theorem recalls_intern (hv : ty.isVar = false) :
    RecallsAs (fun t' id => t'.get? id = some ty) t (intern ty) (intern ty) :=
  (keeps_intern s hb hc hv).mono fun _ _ _ _ h =>
    ⟨h, fun _ p => insert_of_lookup (p.sound.lookup_iff.2 (p.get? h))⟩

theorem stable_intern (hv : ty.isVar = false) : Stable t (intern ty) :=
  (recalls_intern s hb hc hv).mono fun _ _ _ _ h => ⟨below_of_get? h.1, h.2⟩

end

/-- A change of the table outside of its nodes. -/
theorem keeps_modify {ρ : TypeTable → TypeTable → Prop} {g : TypeTable → TypeTable}
    (s : (g t).Sound) (r : ρ t (g t)) : Keeps ρ t (modify g : TableM PUnit) fun _ _ => True :=
  ⟨s, r, trivial⟩

theorem runs_counters {n k : Nat} : t.Runs { t with nextVariable := n, nextScope := k } :=
  ⟨⟨⟨prefix_refl _, rfl⟩, rfl, rfl, rfl, id, .inl⟩, rfl, fun _ _ => rfl, fun _ => rfl,
    fun _ => rfl⟩

section

variable (s : t.Sound)
include s

theorem TypeTable.Sound.counters {n : Nat} (hn : t.nextVariable ≤ n) (k : Nat) :
    ({ t with nextVariable := n, nextScope := k } : TypeTable).Sound :=
  s.of_rest rfl rfl rfl rfl rfl hn

/-! ### Nodes without normal form -/

theorem stable_literalType {l : Literal} : Stable t (literalType l) := by
  unfold literalType
  split
  · exact .pure s (s.below_fixed rfl)
  · exact .pure s (s.below_fixed rfl)
  · exact stable_intern s trivial trivial rfl

theorem safe_literalType {l : Literal} : Safe t (literalType l) :=
  (stable_literalType s).safe

theorem safe_stringLiteral {x : String} : Safe t (stringLiteral x) :=
  safe_literalType s

theorem safe_numberLiteral (x : Double) : Safe t (numberLiteral x) :=
  safe_literalType s

theorem stable_arrayOf {e : TypeId} (h : t.Has e) : Stable t (arrayOf e) :=
  stable_intern s h trivial rfl

theorem safe_arrayOf {e : TypeId} (h : t.Has e) : Safe t (arrayOf e) :=
  (stable_arrayOf s h).safe

theorem stable_tupleOf {es : List TupleElement} {rest : Option TypeId}
    (hes : t.Has es) (hrest : t.Has rest) : Stable t (tupleOf es rest) :=
  stable_intern s ⟨hes, hrest⟩ trivial rfl

theorem safe_tupleOf {es : List TupleElement} {rest : Option TypeId}
    (hes : t.Has es) (hrest : t.Has rest) : Safe t (tupleOf es rest) :=
  (stable_tupleOf s hes hrest).safe

theorem stable_functionOf {f : Signature} (h : t.Has f) : Stable t (functionOf f) :=
  stable_intern s h trivial rfl

theorem safe_functionOf {f : Signature} (h : t.Has f) : Safe t (functionOf f) :=
  (stable_functionOf s h).safe

theorem stable_referenceTo {name : String} {args : List TypeId}
    (h : t.Has args) : Stable t (referenceTo name args) :=
  stable_intern s h trivial rfl

theorem safe_referenceTo {name : String} {args : List TypeId}
    (h : t.Has args) : Safe t (referenceTo name args) :=
  (stable_referenceTo s h).safe

theorem stable_param {p : TypeParam} (h : t.Has p) : Stable t (intern (.param p)) :=
  stable_intern s h trivial rfl

theorem safe_param {p : TypeParam} (h : t.Has p) : Safe t (intern (.param p)) :=
  (stable_param s h).safe

theorem safe_conditional {c : Conditional} (h : t.Has c) : Safe t (intern (.conditional c)) :=
  safe_intern s h trivial rfl

theorem safe_keyOf {operand : TypeId} (h : t.Has operand) : Safe t (intern (.keyOf operand)) :=
  safe_intern s h trivial rfl

theorem safe_caseMapped (change : CaseChange) {inner : TypeId}
    (h : t.Has inner) : Safe t (intern (.caseMapped change inner)) :=
  safe_intern s h trivial rfl

theorem safe_freshScope : Safe t freshScope :=
  (keeps_modify (s.counters (Nat.le_refl _) _) runs_counters).bind fun _ _ s1 _ _ =>
    .read rfl (.pure s1 trivial)

/-- A variable is a new node. -/
theorem keeps_freshVariable : Keeps Runs t freshVariable fun t' v => t'.Has v ∧ ¬t.Has v := by
  have s1 := s.counters (Nat.le_succ _) t.nextScope
  have new : t.lookup? (.var t.nextVariable) = none := Option.eq_none_iff_forall_ne_some.2
    fun id h => Nat.lt_irrefl _ (s.numbered (s.lookup_iff.1 h))
  refine ⟨s1.insert trivial trivial fun n e => ?_, runs_counters.trans (runs_insert ..),
    below_of_get? s1.indexed.get?_insert, fun h => Nat.lt_irrefl t.size ?_⟩
  · cases e
    exact Nat.lt_succ_self _
  · rwa [show freshVariable t = _ from insert_of_new new] at h

theorem safe_freshVariable : Safe t freshVariable :=
  (keeps_freshVariable s).mono fun _ _ _ _ h => h.1

/-! ### Nodes in normal form -/

theorem stable_promiseOf {inner : TypeId} (h : t.Has inner) : Stable t (promiseOf inner) := by
  refine .read (fun _ => rfl) (fun _ p => p.resolve h) ?_
  split
  · exact .pure s h
  · next hn => exact stable_intern s h hn rfl

theorem safe_promiseOf {inner : TypeId} (h : t.Has inner) : Safe t (promiseOf inner) :=
  (stable_promiseOf s h).safe

theorem stable_objectOf {ps : List Property} {index : Option TypeId}
    (hps : t.Has ps) (hindex : t.Has index) : Stable t (objectOf ps index) :=
  stable_intern s ⟨below_sortProperties hps, hindex⟩ namesIncrease_sortProperties rfl

theorem safe_objectOf {ps : List Property} {index : Option TypeId}
    (hps : t.Has ps) (hindex : t.Has index) : Safe t (objectOf ps index) :=
  (stable_objectOf s hps hindex).safe

theorem stable_templateOf {spans : List TemplateSpan} (h : t.Has spans) :
    Stable t (templateOf spans) := by
  unfold templateOf
  split
  · exact stable_literalType s
  · exact stable_literalType s
  · next hnil htext =>
    exact stable_intern s (below_mergeSpans h) (canonicalSpans_mergeSpans hnil htext) rfl

theorem safe_templateOf {spans : List TemplateSpan} (h : t.Has spans) : Safe t (templateOf spans) :=
  (stable_templateOf s h).safe

theorem stable_unionOf {ms : List TypeId} (h : t.Has ms) : Stable t (unionOf ms) := by
  have hbelow := s.below_canonicalMembers h
  -- The table is read for the canonical members only.
  refine .get (fun t' p => ?_) ?_
  · rw [s.canonicalMembers_congr (p.agree s) h]
  split
  · exact .pure s s.below_never
  · next m hm => exact .pure s (below_cons.1 (hm ▸ hbelow)).1
  · next hnil hone =>
    have hunion : t.Has (Ty.union (t.canonicalMembers ms)) := hbelow
    exact stable_intern s hunion (s.canonicalMembers_canonical (two_le_length hnil hone)) rfl

theorem safe_unionOf {ms : List TypeId} (h : t.Has ms) : Safe t (unionOf ms) :=
  (stable_unionOf s h).safe

end

/-! ### The union of a list -/

namespace TypeTable

section IsUnion

variable {xs : List TypeId} {m u : TypeId}

theorem Sound.resolve_boolean (s : t.Sound) : t.resolve .boolean = .primitive .boolean :=
  resolve_of_get? (s.get?_fixed (i := 5) rfl)

/-- A member is an alternative of the list, or joins the booleans of it. -/
theorem mem_of_mem_canonicalMembers (h : m ∈ t.canonicalMembers xs) :
    m ∈ t.flattenUnion xs ∨
      m = .boolean ∧ .true ∈ t.flattenUnion xs ∧ .false ∈ t.flattenUnion xs := by
  unfold canonicalMembers at h
  dsimp only at h
  split at h
  · next hany => exact .inl (mem_singleton.1 h ▸ hany)
  split at h
  · next hunknown => exact .inl (mem_singleton.1 h ▸ hunknown)
  have h := (dropCovered_sublist t _).subset ((collapse_sublist t _).subset h)
  unfold joinBooleans at h
  split at h
  · next both =>
    rcases mem_append.1 (mem_sortIds.1 h) with h | h
    · exact .inl (mem_sortIds.1 (mem_filter.1 h).1)
    · exact .inr ⟨mem_singleton.1 h, mem_sortIds.1 both.1, mem_sortIds.1 both.2⟩
  · exact .inl (mem_sortIds.1 h)

/-- A type that is the union of a list: what the canonical members of the list make. -/
def IsUnion (t : TypeTable) (xs : List TypeId) (u : TypeId) : Prop :=
  t.canonicalMembers xs = [] ∧ u = .never ∨ t.canonicalMembers xs = [u] ∨
    t.resolve u = .union (t.canonicalMembers xs)

/-- The union that was made of a list is its union from then on. -/
theorem Sound.isUnion_unionOf {t' : TypeTable} (s : t.Sound) (hxs : t.Has xs)
    (g : (unionOf xs t).2.Grows t') : t'.IsUnion xs (unionOf xs t).1 := by
  have start : t.Grows t' := by
    have h : Leaves Runs t (unionOf xs) _ := safe_unionOf s hxs
    exact h.related.toGrows.trans g
  have same : t'.canonicalMembers xs = t.canonicalMembers xs :=
    s.canonicalMembers_congr (s.agreeBelow start) hxs
  unfold IsUnion
  rw [same]
  unfold unionOf at g ⊢
  rw [get_bind] at g ⊢
  cases hms : t.canonicalMembers xs with
  | nil => exact .inl ⟨rfl, rfl⟩
  | cons m rest =>
    cases rest with
    | nil => exact .inr (.inl rfl)
    | cons m' rest =>
      rw [hms] at g
      have node : ((intern (.union (m :: m' :: rest)) : TableM TypeId) t).2.get?
          ((intern (.union (m :: m' :: rest)) : TableM TypeId) t).1 = _ :=
        s.indexed.get?_insert
      refine .inr (.inr ?_)
      exact (g.resolve (below_of_get? node)).trans (resolve_of_get? node)

end IsUnion

end TypeTable

/-! ### Primitives of literals -/

theorem below_widenMember (s : t.Sound) {id : TypeId} (h : t.Has id) :
    t.Has (t.widenMember id) := by
  unfold TypeTable.widenMember
  split
  · exact s.below_primitive _
  · exact h

theorem stable_widenLiterals (s : t.Sound) {id : TypeId} (h : t.Has id) :
    Stable t (widenLiterals id) := by
  have members : ∀ ms, t.resolve id = .union ms → t.Has (ms.map t.widenMember) :=
    fun ms hms => Bounded.Below.map fun m hm => below_widenMember s (s.below_node hms m hm)
  refine .get (fun t' p => ?_) ?_
  · have same : ∀ {m : TypeId}, t.Has m → t'.widenMember m = t.widenMember m := by
      intro m hm
      unfold TypeTable.widenMember
      rw [p.resolve hm]
    rw [p.resolve h, same h]
    split
    · next ms hms => rw [map_congr_left fun m hm => same (s.below_node hms m hm)]
    · rfl
  split
  · next ms hms => exact stable_unionOf s (members ms hms)
  · exact .pure s (below_widenMember s h)

theorem safe_widenLiterals (s : t.Sound) {id : TypeId} (h : t.Has id) : Safe t (widenLiterals id) :=
  (stable_widenLiterals s h).safe

end GradualTyping
