/-
# Types in normal form

A type is in *normal form* when evaluation has nothing to do on it.  Its head is
structural, or waits for a type parameter and was found to do so, or it is rebuilt
from normal forms: a union, an intersection, a case change of a type that waits.
Whether it is, is seen on the table: no operation is asked.

Normal forms stay normal while the table goes on (`Normal.keep`), and unions and
intersections of normal forms are normal (`leaves_unionOf_normal`,
`leaves_intersectionOf_normal`).
-/

import GradualTyping.Proofs.Memory

namespace GradualTyping

open TypeTable List

namespace TypeTable

/-- A reference to an alias that has a body. -/
def Expands (t : TypeTable) (id : TypeId) : Prop :=
  ∃ name args definition, t.resolve id = .reference name args ∧
    t.alias? name = some definition ∧ definition.body.isSome

/-- Types that evaluation takes apart and puts together again. -/
inductive Rebuilds (t : TypeTable) : TypeId → List TypeId → Prop
  | union {id ms} : t.resolve id = .union ms → Rebuilds t id ms
  | intersection {id ms} : t.resolve id = .intersection ms → Rebuilds t id ms
  | caseMapped {id change inner} : t.resolve id = .caseMapped change inner →
      (t.resolve inner).delaysCase = true → Rebuilds t id [inner]

/-- Types on which evaluation has nothing to do. -/
inductive Normal (t : TypeTable) : TypeId → Prop
  | head {id} : (t.resolve id).isHead = true → Normal t id
  /-- A node that was found to wait. -/
  | kept {id} : (t.resolve id).isReducible = true → ¬ t.Expands id → t.evaluated[id]? = some id →
      Normal t id
  | rebuilt {id parts} : t.Rebuilds id parts → (∀ m ∈ parts, Normal t m) → Normal t id

/-- What is remembered was stored by evaluation. -/
def Faithful (t : TypeTable) : Prop :=
  ∀ {k v : TypeId}, t.evaluated[k]? = some v → t.Stored k v

variable {t t' : TypeTable} {id : TypeId} {ms : List TypeId}

theorem Faithful.continues (h : t.Faithful) (c : t.Continues t') : t'.Faithful := fun hv =>
  (c.stored hv).elim (fun hv => (h hv).keep c c.remembered) fun h => h

theorem Expands.of_grows (g : t.Grows t') (aliases : t'.aliases = t.aliases)
    (hid : t.Has id) (h : t'.Expands id) : t.Expands id := by
  obtain ⟨name, args, definition, hnode, halias, hbody⟩ := h
  rw [g.resolve hid] at hnode
  rw [TypeTable.alias?, aliases] at halias
  exact ⟨name, args, definition, hnode, halias, hbody⟩

theorem Rebuilds.below {parts : List TypeId} (h : t.Rebuilds id parts) (s : t.Sound) :
    t.Has parts := by
  cases h with
  | union h => exact s.below_node h
  | intersection h => exact s.below_node h
  | caseMapped h _ => exact below_singleton.2 (s.below_node h)

/-- What a type is rebuilt from is the same on all tables that have it. -/
theorem Grows.rebuilds {parts : List TypeId} (g : t.Grows t') (s : t.Sound) (hid : t.Has id) :
    t'.Rebuilds id parts ↔ t.Rebuilds id parts := by
  have node := g.resolve hid
  constructor
  · intro h
    cases h with
    | union h => exact .union (node.symm.trans h)
    | intersection h => exact .intersection (node.symm.trans h)
    | caseMapped h hdelays =>
      have h := node.symm.trans h
      exact .caseMapped h (g.resolve (s.below_node h) ▸ hdelays)
  · intro h
    cases h with
    | union h => exact .union (node.trans h)
    | intersection h => exact .intersection (node.trans h)
    | caseMapped h hdelays =>
      exact .caseMapped (node.trans h) (g.resolve (s.below_node h) ▸ hdelays)

section

variable (h : t.Normal id)
include h

/-- A normal form stays one while nodes and memory are kept and the aliases are the same. -/
theorem Normal.keep (s : t.Sound) (hid : t.Has id) (g : t.Grows t')
    (aliases : t'.aliases = t.aliases)
    (memory : ∀ {k v : TypeId}, t.evaluated[k]? = some v → t'.evaluated[k]? = some v) :
    t'.Normal id := by
  induction h with
  | head h => exact .head (g.resolve hid ▸ h)
  | kept hred hexpands hmem =>
    exact .kept (g.resolve hid ▸ hred) (fun h => hexpands (h.of_grows g aliases hid)) (memory hmem)
  | rebuilt hparts _ ih =>
    exact .rebuilt ((g.rebuilds s hid).2 hparts) fun m hm => ih m hm (hparts.below s m hm)

theorem Normal.runs (s : t.Sound) (hid : t.Has id) (r : t.Runs t') : t'.Normal id :=
  h.keep s hid r r.aliases r.remembered

theorem Normal.not_expands : ¬ t.Expands id := by
  rintro ⟨name, args, definition, hnode, halias, hbody⟩
  cases h with
  | head h =>
    rw [hnode] at h
    cases h
  | kept _ hexpands _ => exact hexpands ⟨name, args, definition, hnode, halias, hbody⟩
  | rebuilt hparts _ => cases hparts <;> simp_all

/-- The parts of a normal form that is rebuilt are normal. -/
theorem Normal.of_rebuilds {parts : List TypeId} (hparts : t.Rebuilds id parts)
    (hred : (t.resolve id).isReducible = false) : ∀ m ∈ parts, t.Normal m := by
  cases h with
  | head h => cases hparts <;> simp_all [Ty.isHead, Ty.isReducible]
  | kept h _ _ =>
    rw [hred] at h
    cases h
  | rebuilt hparts' h => cases hparts <;> cases hparts' <;> simp_all

theorem Normal.of_union (hms : t.resolve id = .union ms) : ∀ m ∈ ms, t.Normal m :=
  h.of_rebuilds (.union hms) (by rw [hms]; rfl)

theorem Normal.of_intersection (hms : t.resolve id = .intersection ms) : ∀ m ∈ ms, t.Normal m :=
  h.of_rebuilds (.intersection hms) (by rw [hms]; rfl)

theorem Normal.unionMembers : ∀ m ∈ t.unionMembers id, t.Normal m := by
  unfold TypeTable.unionMembers
  split
  · next ms hms => exact h.of_union hms
  · exact fun _ hm => nomatch hm
  · exact fun m hm => mem_singleton.1 hm ▸ h

end

theorem Sound.normal_fixed (s : t.Sound) {i : Nat} {ty : Ty} (h : TypeTable.fixed[i]? = some ty)
    (hty : ty.isHead = true) : t.Normal ⟨i⟩ := by
  refine .head ?_
  rw [resolve_of_get? (s.get?_fixed h)]
  exact hty

/-! ### Unions and intersections of normal forms -/

theorem IsUnion.normal (s : t.Sound) {xs : List TypeId} {u : TypeId} (hu : t.IsUnion xs u)
    (h : ∀ x ∈ xs, t.Normal x) : t.Normal u := by
  have members : ∀ m ∈ t.canonicalMembers xs, t.Normal m := by
    intro m hm
    rcases mem_of_mem_canonicalMembers hm with hm | ⟨rfl, -, -⟩
    · obtain ⟨x, hx, hmx⟩ := mem_flatMap.1 hm
      exact (h x hx).unionMembers m hmx
    · exact s.normal_fixed (i := 5) rfl rfl
  rcases hu with ⟨-, rfl⟩ | hone | hunion
  · exact s.normal_fixed (i := 2) rfl rfl
  · exact members u (hone ▸ .head _)
  · exact .rebuilt (.union hunion) members

/-- Normal forms of the table on which an intersection is begun. -/
private def Begun (start : TypeTable) (t : TypeTable) (ms : List TypeId) (v : TypeId) : Prop :=
  Below t.size v ∧ ((∀ m ∈ ms, Below start.size m ∧ start.Normal m) → t.Normal v)

private theorem lasting_begun {start : TypeTable} : Lasting (Begun start) :=
  fun _ _ _ _ s r hv =>
    ⟨r.toGrows.below hv.1, fun h => (hv.2 h).runs s hv.1 r⟩

/-- One step makes a normal form of normal forms, if the steps below it do. -/
theorem MeetStep.normal {start F : TypeTable} (s : start.Sound) (r : start.Runs t) (sF : F.Sound)
    (rF : t.Runs F) {v : TypeId} (h : ∀ m ∈ ms, start.Has m ∧ start.Normal m)
    (step : t.MeetStep F (Begun start F) ms v) : F.Normal v := by
  have later : ∀ {m}, start.Has m ∧ start.Normal m → F.Normal m := fun hm =>
    hm.2.runs s hm.1 (r.trans rF)
  have flat : ∀ m ∈ t.flattenIntersection ms, start.Has m ∧ start.Normal m := by
    intro m hm
    obtain ⟨x, hx, hm⟩ := mem_flatMap.1 hm
    obtain ⟨hbelow, hnormal⟩ := h x hx
    rw [r.resolve hbelow] at hm
    split at hm
    · next parts hparts => exact ⟨s.below_node hparts m hm, hnormal.of_intersection hparts m hm⟩
    · cases hm
    · exact mem_singleton.1 hm ▸ ⟨hbelow, hnormal⟩
  refine step.inherits (fun m hm => later (flat m hm)) (fun _ h => h)
    (sF.normal_fixed (i := 2) rfl rfl) (sF.normal_fixed (i := 0) rfl rfl)
    (sF.normal_fixed (i := 1) rfl rfl) ?_ ?_ fun _ h hnode => .rebuilt (.intersection hnode) h
  · intro u alternatives rest results hu hnode hrest hresults hunion
    obtain ⟨hbelow, hnormal⟩ := flat u hu
    rw [r.resolve hbelow] at hnode
    refine hunion.normal sF fun result hresult => ?_
    obtain ⟨alt, halt, hmeet⟩ := hresults result hresult
    refine hmeet.2 fun m hm => ?_
    rcases mem_append.1 hm with hm | hm
    · exact flat m (hrest hm)
    · rw [mem_singleton.1 hm]
      exact ⟨s.below_node hnode alt halt, hnormal.of_union hnode alt halt⟩
  · intro _ id _ merged
    obtain ⟨shape, hshape⟩ := Merged.shape merged rfl
    exact .head (by rw [hshape]; rfl)

theorem leaves_intersectionOf_normal (s : t.Sound) (hms : t.Has ms) (h : ∀ m ∈ ms, t.Normal m) :
    Leaves Runs t (intersectionOf ms) fun t' v => t'.Has v ∧ t'.Normal v := by
  have made : Keeps Runs t (intersectionOf ms) fun t' v => Begun t t' ms v :=
    keeps_intersectionOf lasting_begun (fun h => h.1)
      (fun _ s' _ => ⟨s'.below_never, fun _ => s'.normal_fixed (i := 2) rfl rfl⟩)
      (fun r1 _ _ r2 s2 hv step => ⟨hv, fun h => step.normal s r1 s2 r2 h⟩) s hms
  exact made.mono fun t' v _ _ hv => ⟨hv.1, hv.2 fun m hm => ⟨hms m hm, h m hm⟩⟩

end TypeTable

end GradualTyping
