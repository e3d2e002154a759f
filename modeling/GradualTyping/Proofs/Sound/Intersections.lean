/-
# The parts of an intersection

An intersection is made from a flat, sorted list of types in one of two ways: the
first union is distributed over, which gives a union of smaller intersections, or
the parts of the list are joined.  For the second, `Parts.From` says where the
parts come from, and the clauses of the canonical form follow from it.
-/

import GradualTyping.Proofs.Sound.Nodes

namespace GradualTyping

open TypeTable List

namespace TypeTable

variable {t t' : TypeTable} {flat : List TypeId}
variable {ms : List TypeId}
variable {alternatives rest l : List TypeId} {p q parts : Parts} {ty : Ty}

/-! ### Flattening -/

theorem Sound.below_flattenIntersection (s : t.Sound) (h : t.Has ms) :
    t.Has (t.flattenIntersection ms) := by
  refine Bounded.Below.flatMap fun m hm => ?_
  split
  · next parts hparts => exact s.below_node hparts
  · exact below_nil
  · exact below_singleton.2 (h m hm)

/-- A member of a flat list is a member of an intersection, or an element that is none. -/
theorem mem_flattenIntersection : m ∈ t.flattenIntersection ms ↔
    (∃ id ∈ ms, ∃ parts, t.resolve id = .intersection parts ∧ m ∈ parts) ∨
      m ∈ ms ∧ (∀ parts, t.resolve m ≠ .intersection parts) ∧ t.resolve m ≠ .unknown := by
  unfold TypeTable.flattenIntersection
  rw [mem_flatMap]
  constructor
  · rintro ⟨id, hid, hm⟩
    split at hm
    · next parts hparts => exact .inl ⟨id, hid, parts, hparts, hm⟩
    · exact absurd hm not_mem_nil
    · next hi hu =>
      obtain rfl := mem_singleton.1 hm
      exact .inr ⟨hid, hi, hu⟩
  · rintro (⟨id, hid, parts, hparts, hm⟩ | ⟨hm, hi, hu⟩)
    · refine ⟨id, hid, ?_⟩
      rw [hparts]
      exact hm
    · refine ⟨m, hm, ?_⟩
      split
      · next parts hparts => exact absurd hparts (hi parts)
      · next h => exact absurd h hu
      · exact .head _

/-- A flat list holds no intersection and no `unknown`. -/
theorem Sound.flattenIntersection_plain (s : t.Sound) {m : TypeId}
    (h : m ∈ t.flattenIntersection ms) :
    (∀ parts, t.resolve m ≠ .intersection parts) ∧ t.resolve m ≠ .unknown := by
  obtain ⟨id, -, hid⟩ := mem_flatMap.1 h
  split at hid
  · next parts hparts =>
    have hc : t.CanonicalIntersection parts := s.canonical_node hparts
    exact ⟨hc.notIntersection m hid, hc.notUnknown m hid⟩
  · exact absurd hid not_mem_nil
  · next hi hu =>
    obtain rfl := mem_singleton.1 hid
    exact ⟨hi, hu⟩

/-- A flat list that nothing absorbs. -/
abbrev Unabsorbed (t : TypeTable) (flat : List TypeId) : Prop :=
  ∀ m ∈ flat, (∀ ps, t.resolve m ≠ .intersection ps) ∧ t.resolve m ≠ .unknown ∧
    t.resolve m ≠ .never ∧ t.resolve m ≠ .any

theorem Sound.flat_plain (s : t.Sound) (hms : t.Has ms)
    (hnever : .never ∉ t.flattenIntersection ms) (hany : .any ∉ t.flattenIntersection ms) :
    t.Unabsorbed (sortIds (t.flattenIntersection ms)) := by
  intro m hm
  have hm := mem_sortIds.1 hm
  obtain ⟨hi, hu⟩ := s.flattenIntersection_plain hm
  refine ⟨hi, hu, fun h => ?_, fun h => hany (s.eq_any h ▸ hm)⟩
  exact hnever (s.eq_never (s.below_flattenIntersection hms m hm) h ▸ hm)

/-! ### The first union -/

theorem perm_of_splitUnion? (h : t.splitUnion? flat = some (alternatives, rest)) :
    ∃ m, t.resolve m = .union alternatives ∧ flat.Perm (m :: rest) ∧
      (Increasing flat → ∀ m' ∈ flat, (t.resolve m').isUnion → m.index ≤ m'.index) := by
  induction flat generalizing rest with
  | nil => simp [splitUnion?] at h
  | cons m flat ih =>
    unfold splitUnion? at h
    split at h
    · next alts hm =>
      obtain ⟨rfl, rfl⟩ := Prod.mk.inj (Option.some.inj h)
      refine ⟨m, hm, .refl _, fun hinc m' hm' _ => ?_⟩
      rcases mem_cons.1 hm' with rfl | hm'
      · exact Nat.le_refl _
      · exact Nat.le_of_lt ((pairwise_cons.1 hinc).1 m' hm')
    · next hm =>
      obtain ⟨⟨alts, others⟩, hsplit, heq⟩ := Option.map_eq_some_iff.1 h
      obtain ⟨rfl, rfl⟩ := Prod.mk.inj heq
      obtain ⟨m0, hres, perm, hleast⟩ := ih hsplit
      refine ⟨m0, hres, (perm.cons m).trans (.swap m0 m others), fun hinc m' hm' hu => ?_⟩
      rcases mem_cons.1 hm' with rfl | hm'
      · cases hr : t.resolve m' with
        | union alts => exact absurd hr (hm alts)
        | _ => rw [hr] at hu; cases hu
      · exact hleast hinc.of_cons m' hm' hu

theorem mem_of_splitUnion? (h : t.splitUnion? flat = some (alternatives, rest)) :
    ∃ m ∈ flat, t.resolve m = .union alternatives ∧ rest ⊆ flat := by
  obtain ⟨m, hm, perm, -⟩ := perm_of_splitUnion? h
  exact ⟨m, perm.symm.subset (.head _), hm, fun _ h => perm.symm.subset (.tail _ h)⟩

theorem not_isUnion_of_splitUnion? (h : t.splitUnion? flat = none) :
    ∀ m ∈ flat, (t.resolve m).isUnion = false := by
  induction flat with
  | nil => exact fun _ hm => nomatch hm
  | cons m flat ih =>
    unfold splitUnion? at h
    split at h
    · cases h
    · next hm =>
      intro m' hm'
      rcases mem_cons.1 hm' with rfl | hm'
      · cases hr : t.resolve m' with
        | union alts => exact absurd hr (hm alts)
        | _ => rfl
      · exact ih (Option.map_eq_none_iff.1 h) m' hm'

/-- The first union of a list, if there is one, is too long to distribute over. -/
def Undistributed (t : TypeTable) (ms : List TypeId) : Prop :=
  ∀ m ∈ ms, ∀ alternatives, t.resolve m = .union alternatives →
    (∀ m' ∈ ms, (t.resolve m').isUnion → m.index ≤ m'.index) →
    distributionLimit < alternatives.length

theorem undistributed_of_some (hinc : Increasing flat)
    (h : t.splitUnion? flat = some (alternatives, rest))
    (hlen : distributionLimit < alternatives.length) : t.Undistributed flat := by
  obtain ⟨m0, hres0, perm, hleast0⟩ := perm_of_splitUnion? h
  intro m hm alts hres hleast
  have h1 := hleast0 hinc m hm (by rw [hres]; rfl)
  have h2 := hleast m0 (perm.symm.subset (.head _)) (by rw [hres0]; rfl)
  have heq : m = m0 := by
    cases m; cases m0
    simp only [TypeId.mk.injEq] at *
    omega
  rw [heq, hres0] at hres
  exact Ty.union.inj hres ▸ hlen

theorem undistributed_of_none (h : t.splitUnion? flat = none) : t.Undistributed flat := by
  intro m hm alts hres
  have hu := not_isUnion_of_splitUnion? h m hm
  rw [hres] at hu
  cases hu

/-! ### The parts of an intersection -/

/-- Where the parts of an intersection come from. -/
structure Parts.From (t : TypeTable) (flat : List TypeId) (p : Parts) : Prop where
  atom : ∀ a, p.atom = some a → a ∈ flat ∧ (t.resolve a).base?.isSome
  objects : ∀ o ∈ p.objects, ∃ m ∈ flat, t.resolve m = .object o
  others : ∀ m ∈ p.others, m ∈ flat ∧ (t.resolve m).base? = none ∧ (t.resolve m).isObject = false

theorem meetAtoms_eq {a b kept : TypeId} (h : t.meetAtoms a b = some kept) :
    kept = a ∨ kept = b := by
  unfold meetAtoms at h
  split at h
  · exact .inl (Option.some.inj h).symm
  · grind

/-- What becomes of the next member: it is or meets the atom, joins the objects, or
joins the others. -/
theorem parts?_cons {m : TypeId} (h : t.parts? p (m :: l) = some q) :
    (∃ kept, (kept = m ∨ p.atom = some kept) ∧ (t.resolve m).base?.isSome ∧
      t.parts? { p with atom := some kept } l = some q) ∨
    (∃ o, t.resolve m = .object o ∧
      t.parts? { p with objects := p.objects ++ [o] } l = some q) ∨
    ((t.resolve m).base? = none ∧ (t.resolve m).isObject = false ∧
      t.parts? { p with others := p.others ++ [m] } l = some q) := by
  unfold parts? at h
  split at h
  case h_1 hres | h_2 hres =>
    have hbase : (t.resolve m).base?.isSome := by rw [hres]; rfl
    split at h
    · exact .inl ⟨m, .inl rfl, hbase, h⟩
    · next a ha =>
      split at h
      · next kept hk =>
        rcases meetAtoms_eq hk with rfl | rfl
        · exact .inl ⟨kept, .inr ha, hbase, h⟩
        · exact .inl ⟨kept, .inl rfl, hbase, h⟩
      · cases h
  · next o hres => exact .inr (.inl ⟨o, hres, h⟩)
  · next h1 h2 h3 =>
    refine .inr (.inr ⟨?_, ?_, h⟩)
    · cases hr : t.resolve m with
      | primitive p => exact absurd hr (h1 p)
      | literal l => exact absurd hr (h2 l)
      | _ => rfl
    · cases hr : t.resolve m with
      | object o => exact absurd hr (h3 o)
      | _ => rfl

theorem parts?_from (h : t.parts? p l = some q)
    (hp : p.From t flat) (hl : l ⊆ flat) : q.From t flat := by
  induction l generalizing p with
  | nil => exact Option.some.inj h ▸ hp
  | cons m l ih =>
    obtain ⟨hm, hl⟩ := cons_subset.1 hl
    rcases parts?_cons h with ⟨kept, hk, hbase, h⟩ | ⟨o, hres, h⟩ | ⟨hbase, hobject, h⟩
    · refine ih h ⟨fun a ha => ?_, hp.objects, hp.others⟩ hl
      obtain rfl := Option.some.inj ha
      rcases hk with rfl | hk
      · exact ⟨hm, hbase⟩
      · exact hp.atom _ hk
    · refine ih h ⟨hp.atom, fun o' ho' => ?_, hp.others⟩ hl
      rcases mem_append.1 ho' with ho' | ho'
      · exact hp.objects o' ho'
      · exact mem_singleton.1 ho' ▸ ⟨m, hm, hres⟩
    · refine ih h ⟨hp.atom, hp.objects, fun m' hm' => ?_⟩ hl
      rcases mem_append.1 hm' with hm' | hm'
      · exact hp.others m' hm'
      · exact mem_singleton.1 hm' ▸ ⟨hm, hbase, hobject⟩

theorem from_parts? (h : t.parts? {} flat = some parts) : parts.From t flat :=
  parts?_from h ⟨by simp, by simp, by simp⟩ (List.Subset.refl flat)

theorem base?_of_isUnion (h : ty.isUnion) : ty.base? = none := by
  cases ty <;> first | rfl | cases h

theorem base?_of_isObject (h : ty.isObject) : ty.base? = none := by
  cases ty <;> first | rfl | cases h

theorem base?_of_isNullish (h : ty.isNullish) : ty.base?.isSome := by
  cases ty <;> first | rfl | cases h

/-- Every union of the list is among the other parts. -/
theorem mem_others_of_parts? (h : t.parts? p l = some q) :
    p.others ⊆ q.others ∧ ∀ m ∈ l, (t.resolve m).isUnion → m ∈ q.others := by
  induction l generalizing p with
  | nil => exact Option.some.inj h ▸ ⟨List.Subset.refl _, fun _ hm => nomatch hm⟩
  | cons m l ih =>
    rcases parts?_cons h with ⟨kept, -, hbase, h⟩ | ⟨o, hres, h⟩ | ⟨-, -, h⟩
    · refine ⟨(ih h).1, fun m' hm' hu => ?_⟩
      rcases mem_cons.1 hm' with rfl | hm'
      · rw [base?_of_isUnion hu] at hbase
        cases hbase
      · exact (ih h).2 m' hm' hu
    · refine ⟨(ih h).1, fun m' hm' hu => ?_⟩
      rcases mem_cons.1 hm' with rfl | hm'
      · rw [hres] at hu
        cases hu
      · exact (ih h).2 m' hm' hu
    · refine ⟨fun x hx => (ih h).1 (mem_append_left _ hx), fun m' hm' hu => ?_⟩
      rcases mem_cons.1 hm' with rfl | hm'
      · exact (ih h).1 (mem_append_right _ (mem_singleton.2 rfl))
      · exact (ih h).2 m' hm' hu

/-! ### Joining the parts -/

/-- What the members of a joined intersection are, in a later table: other parts,
the atom, or the object that the objects are merged to. -/
structure Joined (t' : TypeTable) (parts : Parts) (object : Option TypeId) (ms : List TypeId) :
    Prop where
  mem : ∀ m ∈ ms, m ∈ parts.others ∨ parts.atom = some m ∨ object = some m
  others : ∀ m ∈ parts.others, m ∈ ms
  isObject : ∀ m, object = some m → (t'.resolve m).isObject
  noObject : parts.objects = [] → object = none

/-- **The joined parts of a flat list make a canonical intersection.** -/
theorem joined_canonical (g : t.Grows t')
    {object : Option TypeId} (hflat : t.Has flat) (hplain : t.Unabsorbed flat)
    (hunions : t.Undistributed flat) (hparts : t.parts? {} flat = some parts)
    (hempty : parts.isEmpty t = false) (hj : t'.Joined parts object ms)
    (hlen : 2 ≤ ms.length) (hinc : Increasing ms) : t'.CanonicalIntersection ms := by
  have hfrom := from_parts? hparts
  have hres : ∀ m ∈ flat, t'.resolve m = t.resolve m := fun m hm => g.resolve (hflat m hm)
  -- A member is a member of the list or the merged object.
  have hmem : ∀ m ∈ ms, m ∈ flat ∧ t'.resolve m = t.resolve m ∧
      (t.resolve m).isObject = false ∨ object = some m ∧ (t'.resolve m).isObject := by
    intro m hm
    rcases hj.mem m hm with h | h | h
    · obtain ⟨hf, -, ho⟩ := hfrom.others m h
      exact .inl ⟨hf, hres m hf, ho⟩
    · obtain ⟨hf, hb⟩ := hfrom.atom m h
      refine .inl ⟨hf, hres m hf, Bool.eq_false_iff.2 fun ho => ?_⟩
      rw [base?_of_isObject ho] at hb
      cases hb
    · exact .inr ⟨h, hj.isObject m h⟩
  have hobject : ∀ {m ty}, (t'.resolve m).isObject → t'.resolve m = ty → ty.isObject :=
    fun h h' => h' ▸ h
  have hplain' : ∀ m ∈ ms, (∀ ps, t'.resolve m ≠ .intersection ps) ∧ t'.resolve m ≠ .unknown ∧
      t'.resolve m ≠ .never ∧ t'.resolve m ≠ .any := by
    intro m hm
    rcases hmem m hm with ⟨hf, hr, -⟩ | ⟨-, ho⟩
    · exact hr ▸ hplain m hf
    · exact ⟨fun ps h => absurd (hobject ho h) Bool.false_ne_true,
        fun h => absurd (hobject ho h) Bool.false_ne_true,
        fun h => absurd (hobject ho h) Bool.false_ne_true,
        fun h => absurd (hobject ho h) Bool.false_ne_true⟩
  -- An atom among the members is the atom of the parts.
  have hatom : ∀ m ∈ ms, (t'.resolve m).base?.isSome → parts.atom = some m := by
    intro m hm hb
    rcases hj.mem m hm with h | h | h
    · obtain ⟨hf, hn, -⟩ := hfrom.others m h
      rw [hres m hf, hn] at hb
      cases hb
    · exact h
    · rw [base?_of_isObject (hj.isObject m h)] at hb
      cases hb
  have hone : ∀ m ∈ ms, (t'.resolve m).isObject → object = some m := by
    intro m hm ho
    rcases hmem m hm with ⟨-, hr, hno⟩ | ⟨h, -⟩
    · rw [hr, hno] at ho
      cases ho
    · exact h
  refine ⟨hlen, hinc, fun m hm => (hplain' m hm).1, fun m hm => (hplain' m hm).2.1,
    fun m hm => (hplain' m hm).2.2.1, fun m hm => (hplain' m hm).2.2.2, ?_, ?_, ?_, ?_⟩
  · exact fun a ha b hb oa ob => Option.some.inj ((hone a ha oa).symm.trans (hone b hb ob))
  · exact fun a ha b hb oa ob => Option.some.inj ((hatom a ha oa).symm.trans (hatom b hb ob))
  · intro a ha b hb hn
    refine Bool.eq_false_iff.2 fun ho => ?_
    have hb' := hone b hb ho
    have ha' : parts.atom = some a := hatom a ha (base?_of_isNullish hn)
    have hres' := hres a (hfrom.atom a ha').1
    have hobjects : parts.objects ≠ [] := fun h => by rw [hj.noObject h] at hb'; cases hb'
    simp [Parts.isEmpty, ha', hobjects, ← hres', hn] at hempty
  · intro m hm alternatives hu hleast
    have hm' : m ∈ flat ∧ t.resolve m = .union alternatives := by
      rcases hmem m hm with ⟨hf, hr, -⟩ | ⟨-, ho⟩
      · exact ⟨hf, hr ▸ hu⟩
      · exact absurd (hobject ho hu) Bool.false_ne_true
    refine hunions m hm'.1 alternatives hm'.2 fun m'' hm'' hu'' => ?_
    refine hleast m'' (hj.others m'' ((mem_others_of_parts? hparts).2 m'' hm'' hu'')) ?_
    rw [hres m'' hm'']
    exact hu''

/-- The parts of a flat list without a union to distribute over, on a table on which its objects
are merged. -/
theorem joinedParts {t1 : TypeTable} (r : t.Runs t1) (hflat : t.Has flat)
    (hplain : t.Unabsorbed flat) (hunions : t.Undistributed flat) {object : Option TypeId}
    (hparts : t.parts? {} flat = some parts) (hempty : ¬ parts.isEmpty t = true)
    (hobject : t1.Has object ∧ (∀ m, object = some m → (t1.resolve m).isObject) ∧
      (parts.objects = [] → object = none)) :
    t1.Has (sortIds (parts.others ++ parts.atom.toList ++ object.toList)) ∧
      (2 ≤ (sortIds (parts.others ++ parts.atom.toList ++ object.toList)).length →
        t1.CanonicalIntersection (sortIds (parts.others ++ parts.atom.toList ++ object.toList))) := by
  have hfrom := from_parts? hparts
  refine ⟨below_sortIds (below_append.2 ⟨below_append.2 ⟨?_, ?_⟩, hobject.1.toList⟩), fun hlen => ?_⟩
  · exact fun m hm => r (hflat m (hfrom.others m hm).1)
  · exact fun m hm => r (hflat m (hfrom.atom m (Option.mem_toList.1 hm)).1)
  · refine joined_canonical r hflat hplain hunions hparts (by simpa using hempty)
      ⟨fun m hm => ?_, fun m hm => ?_, hobject.2.1, hobject.2.2⟩ hlen increasing_sortIds
    · simpa [or_assoc] using mem_sortIds.1 hm
    · exact mem_sortIds.2 (mem_append_left _ (mem_append_left _ hm))

/-! ### Reading a list on a later table -/

section Agree

variable {n : Nat} (h : AgreeBelow n t t')

include h

theorem AgreeBelow.flattenIntersection (hms : Below n ms) :
    t'.flattenIntersection ms = t.flattenIntersection ms := by
  unfold TypeTable.flattenIntersection
  rw [flatMap_def, flatMap_def, map_congr_left fun m hm => by rw [h.resolve (hms m hm)]]

theorem AgreeBelow.splitUnion? (hflat : Below n flat) :
    t'.splitUnion? flat = t.splitUnion? flat := by
  induction flat with
  | nil => rfl
  | cons m flat ih =>
    obtain ⟨hm, hflat⟩ := below_cons.1 hflat
    rw [TypeTable.splitUnion?, TypeTable.splitUnion?, h.resolve hm, ih hflat]

theorem AgreeBelow.meetAtoms {a b : TypeId} (ha : Below n a) (hb : Below n b) :
    t'.meetAtoms a b = t.meetAtoms a b := by
  unfold TypeTable.meetAtoms
  rw [h.resolve ha, h.resolve hb]

theorem AgreeBelow.parts? {p : Parts} (hp : Below n p.atom) (hflat : Below n flat) :
    t'.parts? p flat = t.parts? p flat := by
  induction flat generalizing p with
  | nil => rfl
  | cons m flat ih =>
    obtain ⟨hm, hflat⟩ := below_cons.1 hflat
    rw [TypeTable.parts?, TypeTable.parts?, h.resolve hm]
    cases t.resolve m with
    | primitive _ | literal _ =>
      dsimp only
      cases hatom : p.atom with
      | none => exact ih (below_some.2 hm) hflat
      | some a =>
        dsimp only
        have ha := hp a hatom
        rw [h.meetAtoms ha hm]
        cases hmeet : t.meetAtoms a m with
        | none => rfl
        | some kept =>
          refine ih (below_some.2 ?_) hflat
          rcases meetAtoms_eq hmeet with rfl | rfl
          · exact ha
          · exact hm
    | _ => exact ih hp hflat

theorem AgreeBelow.isEmpty {p : Parts} (hp : Below n p.atom) : p.isEmpty t' = p.isEmpty t := by
  unfold Parts.isEmpty
  cases hatom : p.atom with
  | none => rfl
  | some a => simp only [Option.any_some, h.resolve (hp a hatom)]

theorem AgreeBelow.joinParts {meet : List TypeId → TableM TypeId} (hflat : Below n flat) :
    intersectStep.joinParts meet t' flat = intersectStep.joinParts meet t flat := by
  unfold intersectStep.joinParts
  rw [h.parts? below_none hflat]
  cases hparts : t.parts? {} flat with
  | none => rfl
  | some parts =>
    dsimp only
    rw [h.isEmpty fun a ha => hflat a ((from_parts? hparts).atom a ha).1]

end Agree

end TypeTable

end GradualTyping
