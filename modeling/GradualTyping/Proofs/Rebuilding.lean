/-
# Canonical nodes are made again from their members

Making the union of the members of a union in canonical form finds nothing to do,
and so does making the intersection of the members of an intersection
(`Sound.unionOf_canonical`, `Sound.intersectionOf_canonical`).  Every step of
normalisation keeps the list: it is flat and sorted, nothing in it absorbs or
covers anything else, and there is at most one object to merge.

A list of positions in order is known by its elements (`increasing_ext`), which
compares the parts of an intersection, sorted by kind, with the list they were
taken from.
-/

import Mathlib.Data.List.Sort
import GradualTyping.Proofs.Sound.Intersections

namespace GradualTyping

open TypeTable List

theorem increasing_ext {l l' : List TypeId} (h : Increasing l) (h' : Increasing l')
    (same : ∀ a, a ∈ l ↔ a ∈ l') : l = l' :=
  have : Std.Irrefl fun a b : TypeId => a.index < b.index := ⟨fun _ => Nat.lt_irrefl _⟩
  have : Std.Antisymm fun a b : TypeId => a.index < b.index :=
    ⟨fun _ _ h h' => absurd h (Nat.lt_asymm h')⟩
  List.Pairwise.eq_of_mem_iff h h' same

theorem flatMap_self {α : Type} {l : List α} {f : α → List α} (h : ∀ a ∈ l, f a = [a]) :
    l.flatMap f = l := by
  induction l with
  | nil => rfl
  | cons a l ih => rw [flatMap_cons, h a (.head _), ih fun b hb => h b (.tail _ hb)]; rfl

namespace TypeTable

variable {t : TypeTable} {ms : List TypeId}
variable {m : TypeId} {p : Parts} {l : List TypeId}

/-! ### Unions -/

theorem CanonicalUnion.unionMembers (h : t.CanonicalUnion ms) (hm : m ∈ ms) :
    t.unionMembers m = [m] := by
  unfold TypeTable.unionMembers
  split
  · next members hmembers =>
    have hunion := h.notUnion m hm
    rw [hmembers] at hunion
    cases hunion
  · next hnever => exact absurd hnever (h.notNever m hm)
  · rfl

theorem CanonicalUnion.flattenUnion (h : t.CanonicalUnion ms) : t.flattenUnion ms = ms :=
  flatMap_self fun _ hm => h.unionMembers hm

theorem CanonicalUnion.dropCovered (h : t.CanonicalUnion ms) : t.dropCovered ms = ms := by
  unfold TypeTable.dropCovered
  extract_lets present
  split
  · rfl
  · refine filter_eq_self.2 fun m hm => ?_
    split
    · next l hl =>
      refine decide_eq_true fun hbase => ?_
      obtain ⟨p, hp, hres⟩ := mem_filterMap.1 hbase
      split at hres
      · next q hq =>
        obtain rfl := Option.some.inj hres
        exact h.uncovered m hm l hl p hp hq
      · cases hres
    · rfl

theorem CanonicalUnion.collapse (h : t.CanonicalUnion ms) : t.collapse ms = ms := by
  refine increasing_ext (h.increasing.sublist (collapse_sublist t ms)) h.increasing fun m =>
    ⟨fun hm => (collapse_sublist t ms).subset hm, fun hm => ?_⟩
  obtain ⟨k, hk, same⟩ := exists_mem_collapse (t := t) hm
  by_cases hkm : k = m
  · exact hkm ▸ hk
  · have hi := same.resolve_left hkm
    rw [h.distinct k ((collapse_sublist t ms).subset hk) m hm hkm] at hi
    cases hi

theorem Sound.canonicalMembers_self (s : t.Sound) (h : t.CanonicalUnion ms) :
    t.canonicalMembers ms = ms := by
  have hany : TypeId.any ∉ ms := fun hm =>
    h.notAny _ hm (resolve_of_get? (s.get?_fixed (i := 0) rfl))
  have hunknown : TypeId.unknown ∉ ms := fun hm =>
    h.notUnknown _ hm (resolve_of_get? (s.get?_fixed (i := 1) rfl))
  unfold canonicalMembers
  dsimp only
  rw [h.flattenUnion, if_neg hany, if_neg hunknown, sortIds_of_increasing h.increasing,
    joinBooleans, if_neg h.notBothBooleans, h.dropCovered, h.collapse]

/-- **The union of the members of a union in canonical form is its node.** -/
theorem Sound.unionOf_canonical (s : t.Sound) (h : t.CanonicalUnion ms) :
    unionOf ms t = t.insert (.union ms) := by
  unfold unionOf
  rw [get_bind, s.canonicalMembers_self h]
  rcases ms with _ | ⟨a, _ | ⟨b, rest⟩⟩
  · exact absurd h.several (by decide)
  · exact absurd h.several (by simp)
  · rfl

/-! ### The parts of an intersection -/

/-- A primitive or a literal. -/
def isAtom (t : TypeTable) (id : TypeId) : Bool := (t.resolve id).base?.isSome

/-- The shape of an object. -/
def shape? (t : TypeTable) (id : TypeId) : Option ObjectShape :=
  match t.resolve id with
  | .object o => some o
  | _ => none

/-- Neither an atom nor an object. -/
def isOther (t : TypeTable) (id : TypeId) : Bool := !t.isAtom id && (t.shape? id).isNone

theorem shape?_eq_some {id : TypeId} {o : ObjectShape} :
    t.shape? id = some o ↔ t.resolve id = .object o := by
  unfold shape?
  split
  · next o' ho' => rw [ho', Option.some.injEq, Ty.object.injEq]
  · next hne => exact ⟨nofun, fun h => absurd h (hne o)⟩

theorem isOther_iff {id : TypeId} : t.isOther id = true ↔ t.isAtom id = false ∧ t.shape? id = none := by
  rw [isOther, Bool.and_eq_true, Bool.not_eq_true', Option.isNone_iff_eq_none]

theorem parts?_atom (h : t.isAtom m = true)
    (hp : p.atom = none) : t.parts? p (m :: l) = t.parts? { p with atom := some m } l := by
  rw [isAtom] at h
  rw [parts?]
  cases hres : t.resolve m with
  | primitive q => simp only [hp]
  | literal q => simp only [hp]
  | _ => rw [hres] at h; cases h

theorem parts?_object {o : ObjectShape} (h : t.shape? m = some o) :
    t.parts? p (m :: l) = t.parts? { p with objects := p.objects ++ [o] } l := by
  rw [parts?, shape?_eq_some.1 h]

theorem parts?_other (h : t.isOther m = true) :
    t.parts? p (m :: l) = t.parts? { p with others := p.others ++ [m] } l := by
  obtain ⟨hatom, hshape⟩ := isOther_iff.1 h
  rw [isAtom] at hatom
  rw [shape?] at hshape
  rw [parts?]
  cases hres : t.resolve m with
  | primitive q => rw [hres] at hatom; cases hatom
  | literal q => rw [hres] at hatom; cases hatom
  | object o => rw [hres] at hshape; cases hshape
  | _ => rfl

theorem shape?_of_isAtom {id : TypeId} (h : t.isAtom id = true) : t.shape? id = none := by
  rw [isAtom] at h
  rw [shape?]
  split
  · next o ho => rw [ho] at h; cases h
  · rfl

/-- The parts of a list with at most one atom, by kind. -/
theorem parts?_eq (one : l.Pairwise fun a b => ¬ (t.isAtom a = true ∧ t.isAtom b = true))
    (fresh : p.atom.isSome → ∀ m ∈ l, t.isAtom m = false) :
    t.parts? p l = some
      { atom := p.atom.or (l.find? t.isAtom)
        objects := p.objects ++ l.filterMap t.shape?
        others := p.others ++ l.filter t.isOther } := by
  induction l generalizing p with
  | nil => simp [parts?]
  | cons m l ih =>
    obtain ⟨hm, one⟩ := pairwise_cons.1 one
    have later : p.atom.isSome → ∀ m ∈ l, t.isAtom m = false := fun h x hx => fresh h x (.tail _ hx)
    cases hatom : t.isAtom m with
    | true =>
      have none : p.atom = none := by
        cases h : p.atom with
        | none => rfl
        | some a => rw [fresh (by rw [h]; rfl) m (.head _)] at hatom; cases hatom
      have hshape := shape?_of_isAtom hatom
      have other : t.isOther m = false := by rw [isOther, hatom]; rfl
      rw [parts?_atom hatom none, ih one fun _ x hx => Bool.eq_false_iff.2 fun h => hm x hx ⟨hatom, h⟩]
      simp [none, hatom, hshape, other]
    | false =>
      cases hshape : t.shape? m with
      | some o =>
        have other : t.isOther m = false := by rw [isOther, hshape, hatom]; rfl
        rw [parts?_object hshape, ih (p := { p with objects := p.objects ++ [o] }) one later]
        simp [hatom, hshape, other]
      | none =>
        have other : t.isOther m = true := isOther_iff.2 ⟨hatom, hshape⟩
        rw [parts?_other other, ih (p := { p with others := p.others ++ [m] }) one later]
        simp [hatom, hshape, other]

/-! ### Intersections -/

theorem CanonicalIntersection.flattenIntersection (h : t.CanonicalIntersection ms) :
    t.flattenIntersection ms = ms := by
  unfold TypeTable.flattenIntersection
  refine flatMap_self fun m hm => ?_
  split
  · next parts hparts => exact absurd hparts (h.notIntersection m hm parts)
  · next hunknown => exact absurd hunknown (h.notUnknown m hm)
  · rfl

/-- At most one object: merging makes no new one. -/
theorem Sound.mergeAll_shapes (s : t.Sound) (h : t.CanonicalIntersection ms)
    (meet : TypeId → TypeId → TableM TypeId) : ∃ object,
      mergeAll meet (ms.filterMap t.shape?) t = (object, t) ∧
      ∀ m, object = some m ↔ m ∈ ms ∧ (t.shape? m).isSome := by
  by_cases hobject : ∃ m ∈ ms, (t.shape? m).isSome
  · obtain ⟨m, hm, hsome⟩ := hobject
    obtain ⟨o, ho⟩ := Option.isSome_iff_exists.1 hsome
    have hres := shape?_eq_some.1 ho
    have only : ∀ x ∈ ms, (t.shape? x).isSome → x = m := by
      intro x hx hxs
      obtain ⟨o', ho'⟩ := Option.isSome_iff_exists.1 hxs
      refine h.oneObject x hx m hm ?_ (by rw [hres]; rfl)
      rw [shape?_eq_some.1 ho']
      rfl
    have shapes : ms.filterMap t.shape? = [o] := by
      obtain ⟨before, after, rfl⟩ := append_of_mem hm
      have others : ∀ x, x ∈ before ∨ x ∈ after → t.shape? x = none := by
        intro x hx
        cases hxs : t.shape? x with
        | none => rfl
        | some o' =>
          obtain rfl := only x (by rcases hx with hx | hx <;> simp [hx]) (by rw [hxs]; rfl)
          have hinc := pairwise_append.1 h.increasing
          rcases hx with hx | hx
          · exact absurd (hinc.2.2 x hx x (.head _)) (Nat.lt_irrefl _)
          · exact absurd ((pairwise_cons.1 hinc.2.1).1 x hx) (Nat.lt_irrefl _)
      rw [filterMap_append, filterMap_cons_some ho,
        filterMap_eq_nil_iff.2 fun x hx => others x (.inl hx),
        filterMap_eq_nil_iff.2 fun x hx => others x (.inr hx)]
      rfl
    have known : t.insert (.object o) = (m, t) :=
      insert_of_lookup (s.lookup_iff.2 (get?_of_resolve hres nofun))
    refine ⟨some m, ?_, fun x => ⟨fun hx => ?_, fun hx => ?_⟩⟩
    · rw [shapes]
      show (some (t.insert (.object o)).1, (t.insert (.object o)).2) = _
      rw [known]
    · obtain rfl := Option.some.inj hx
      exact ⟨hm, hsome⟩
    · rw [only x hx.1 hx.2]
  · have shapes : ms.filterMap t.shape? = [] := by
      refine filterMap_eq_nil_iff.2 fun m hm => ?_
      cases hs : t.shape? m with
      | none => rfl
      | some o => exact absurd ⟨m, hm, by rw [hs]; rfl⟩ hobject
    refine ⟨none, by rw [shapes]; rfl, fun m => ⟨nofun, fun hm => absurd ⟨m, hm⟩ hobject⟩⟩

/-- **The intersection of the members of an intersection in canonical form is its node.** -/
theorem Sound.intersectionOf_canonical (s : t.Sound) (h : t.CanonicalIntersection ms) :
    intersectionOf ms t = t.insert (.intersection ms) := by
  have hnever : TypeId.never ∉ ms := fun hm =>
    h.notNever _ hm (resolve_of_get? (s.get?_fixed (i := 2) rfl))
  have hany : TypeId.any ∉ ms := fun hm =>
    h.notAny _ hm (resolve_of_get? (s.get?_fixed (i := 0) rfl))
  have one : ms.Pairwise fun a b => ¬ (t.isAtom a = true ∧ t.isAtom b = true) := by
    refine h.increasing.imp_of_mem fun {a b} ha hb hlt atoms => ?_
    rw [h.oneAtom a ha b hb atoms.1 atoms.2] at hlt
    exact absurd hlt (Nat.lt_irrefl _)
  -- The parts by kind make up the list again.
  have joined (meet : List TypeId → TableM TypeId) :
      intersectStep.joinParts meet t ms t = t.insert (.intersection ms) := by
    obtain ⟨object, hmerge, hobject⟩ := s.mergeAll_shapes h (fun a b => meet [a, b])
    unfold intersectStep.joinParts
    rw [parts?_eq one (by simp)]
    dsimp only [nil_append, Option.none_or]
    rw [if_neg, bind_of_eq hmerge]
    · have members : sortIds (ms.filter t.isOther ++ (ms.find? t.isAtom).toList ++ object.toList) =
          ms := by
        refine increasing_ext increasing_sortIds h.increasing fun m => ?_
        rw [mem_sortIds, mem_append, mem_append, mem_filter, Option.mem_toList,
          Option.mem_toList, hobject]
        constructor
        · rintro ((⟨hm, -⟩ | hm) | ⟨hm, -⟩)
          · exact hm
          · exact mem_of_find?_eq_some hm
          · exact hm
        · intro hm
          cases hatom : t.isAtom m with
          | true =>
            -- The atom that is found is the only one.
            refine .inl (.inr ?_)
            cases hfind : ms.find? t.isAtom with
            | none => exact absurd hatom (find?_eq_none.1 hfind m hm)
            | some a =>
              have found : t.isAtom a = true := find?_some hfind
              rw [h.oneAtom a (mem_of_find?_eq_some hfind) m hm found hatom]
          | false =>
            cases hshape : t.shape? m with
            | some o => exact .inr ⟨hm, rfl⟩
            | none => exact .inl (.inl ⟨hm, isOther_iff.2 ⟨hatom, hshape⟩⟩)
      rw [members]
      split
      · exact absurd h.several (by decide)
      · exact absurd h.several (by simp)
      · rfl
    · intro hempty
      simp only [Parts.isEmpty, Bool.and_eq_true, Bool.not_eq_true', isEmpty_eq_false_iff] at hempty
      obtain ⟨hobjects, hnullish⟩ := hempty
      obtain ⟨o, ho⟩ := exists_mem_of_ne_nil _ hobjects
      obtain ⟨m, hm, hmo⟩ := mem_filterMap.1 ho
      cases hfind : ms.find? t.isAtom with
      | none => rw [hfind] at hnullish; cases hnullish
      | some a =>
        rw [hfind] at hnullish
        have clash := h.inhabited a (mem_of_find?_eq_some hfind) m hm hnullish
        rw [shape?_eq_some.1 hmo] at clash
        cases clash
  unfold intersectionOf
  rw [get_bind]
  obtain ⟨fuel, hfuel⟩ : ∃ fuel, (t.size + ms.length + 2) * (t.size + ms.length + 2) = fuel + 1 :=
    ⟨_, rfl⟩
  rw [hfuel]
  unfold intersectWithin intersectStep
  rw [get_bind, h.flattenIntersection, if_neg hnever, if_neg hany, sortIds_of_increasing h.increasing]
  split
  · exact absurd h.several (by decide)
  · exact absurd h.several (by simp)
  cases hsplit : t.splitUnion? ms with
  | none => exact joined _
  | some split =>
    obtain ⟨alternatives, others⟩ := split
    obtain ⟨m, hres, perm, hleast⟩ := perm_of_splitUnion? hsplit
    have long := h.undistributed m (perm.symm.subset (.head _)) alternatives hres (hleast h.increasing)
    dsimp only
    rw [if_neg (Nat.not_le.2 long)]
    exact joined _

end TypeTable

end GradualTyping
