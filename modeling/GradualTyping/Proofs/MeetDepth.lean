/-
# An intersection never runs out of fuel

`intersectWithin` counts its nested steps down.  A step distributes over the first
union of a list or merges the objects of the list, which intersects the types of the
fields they share.  Two measures bound the nesting:

* `Nested d id`: objects are nested at most `d` deep in a type.  Merging goes from
  objects to their fields, and no step makes a type that is nested deeper than those
  it is made of;
* `Distributes c flat`: at most `c` unions of a flat list come to be distributed over.
  A union that is too long stops distribution for all unions behind it, and the first
  union of an intersection is too long, so the members of an alternative add none.

With more than `3 * d + c` steps to go, the answer does not depend on their number, nor on
what would be called below them (`matches_intersectSteps`).  The square that
`intersectionOf` begins with is above that, so that an intersection is the same on every
later table (`stable_intersectionOf`).
-/

import Mathlib.Logic.Function.Iterate
import GradualTyping.Proofs.Rebuilding
import GradualTyping.Proofs.Meets

namespace GradualTyping

namespace TypeTable

variable {t t' : TypeTable} {d c : Nat} {id m : TypeId} {ms flat : List TypeId}

/-! ### The depth of objects -/

/-- Objects are nested at most so deep in a type. -/
inductive Nested (t : TypeTable) : Nat → TypeId → Prop
  | object {d : Nat} {id : TypeId} {o : ObjectShape} : t.resolve id = .object o →
      (∀ p ∈ o.properties, Nested t d p.type) → (∀ i, o.index = some i → Nested t d i) →
      Nested t (d + 1) id
  | union {d : Nat} {id : TypeId} {ms : List TypeId} : t.resolve id = .union ms →
      (∀ m ∈ ms, Nested t d m) → Nested t d id
  | intersection {d : Nat} {id : TypeId} {ms : List TypeId} : t.resolve id = .intersection ms →
      (∀ m ∈ ms, Nested t d m) → Nested t d id
  | other {d : Nat} {id : TypeId} : (t.resolve id).isObject = false →
      (t.resolve id).isUnion = false → (∀ ms, t.resolve id ≠ .intersection ms) → Nested t d id

theorem Nested.fields {o : ObjectShape} (h : t.Nested d id) (ho : t.resolve id = .object o) :
    ∃ e, d = e + 1 ∧ o.Fields (t.Nested e) := by
  cases h with
  | object hres hps hi =>
    obtain rfl := Ty.object.inj (hres.symm.trans ho)
    exact ⟨_, rfl, hps, hi⟩
  | union hres _ => rw [hres] at ho; cases ho
  | intersection hres _ => rw [hres] at ho; cases ho
  | other hno _ _ => rw [ho] at hno; cases hno

theorem Nested.union_members (h : t.Nested d id) (hu : t.resolve id = .union ms) :
    ∀ m ∈ ms, t.Nested d m := by
  cases h with
  | object hres _ _ => rw [hres] at hu; cases hu
  | union hres hms => exact Ty.union.inj (hres.symm.trans hu) ▸ hms
  | intersection hres _ => rw [hres] at hu; cases hu
  | other _ hno _ => rw [hu] at hno; cases hno

theorem Nested.intersection_members (h : t.Nested d id) (hi : t.resolve id = .intersection ms) :
    ∀ m ∈ ms, t.Nested d m := by
  cases h with
  | object hres _ _ => rw [hres] at hi; cases hi
  | union hres _ => rw [hres] at hi; cases hi
  | intersection hres hms => exact Ty.intersection.inj (hres.symm.trans hi) ▸ hms
  | other _ _ hno => exact absurd hi (hno ms)

theorem Nested.mono {e : Nat} (h : t.Nested d id) (hde : d ≤ e) : t.Nested e id := by
  induction h generalizing e with
  | @object d id o ho _ _ ihp ihi =>
    obtain ⟨e, rfl⟩ : ∃ k, e = k + 1 := ⟨e - 1, by omega⟩
    exact .object ho (fun p hp => ihp p hp (by omega)) fun i hi => ihi i hi (by omega)
  | union hu _ ih => exact .union hu fun m hm => ih m hm hde
  | intersection hi _ ih => exact .intersection hi fun m hm => ih m hm hde
  | other ho hu hi => exact .other ho hu hi

/-- The depth of a type depends on its own nodes only. -/
theorem Nested.agree {n : Nat} (h : t.Nested d id) (agree : AgreeBelow n t t') (hid : Below n id) :
    t'.Nested d id := by
  have below {ty : Ty} {id : TypeId} (hid : Below n id) (h : t.resolve id = ty) : Below n ty :=
    h ▸ agree.closed hid
  induction h with
  | object ho _ _ ihp ihi =>
    have hb := below hid ho
    exact .object ((agree.resolve hid).trans ho) (fun p hp => ihp p hp (hb.1 p hp))
      fun i hi => ihi i hi (hb.2 i hi)
  | union hu _ ih =>
    exact .union ((agree.resolve hid).trans hu) fun m hm => ih m hm (below hid hu m hm)
  | intersection hi _ ih =>
    exact .intersection ((agree.resolve hid).trans hi) fun m hm => ih m hm (below hid hi m hm)
  | other ho hu hi =>
    rw [← agree.resolve hid] at ho hu
    exact .other ho hu fun ms => agree.resolve hid ▸ hi ms

/-- Later tables keep the depth of a type. -/
theorem Sound.nested_iff (s : t.Sound) (g : t.Grows t') (hid : t.Has id) :
    t'.Nested d id ↔ t.Nested d id := by
  refine ⟨fun h => h.agree (n := t.size) ⟨fun hid => ?_, fun hid => (g.resolve hid).symm,
    g.limits.symm⟩ hid, fun h => h.agree (s.agreeBelow g) hid⟩
  rw [g.resolve hid]
  exact s.below_resolve _

/-- A node holds earlier types only, so that its position bounds its depth. -/
theorem Sound.nested (s : t.Sound) (hid : t.Has id) : t.Nested id.index id := by
  obtain ⟨n⟩ := id
  induction n using Nat.strongRecOn with
  | ind n ih =>
    have hb : Below n (t.resolve ⟨n⟩) := s.earlier (get?_of_below hid)
    have part : ∀ m : TypeId, m.index < n → t.Nested (n - 1) m := by
      intro m hm
      exact (ih m.index hm (Nat.lt_trans hm hid)).mono (Nat.le_sub_one_of_lt hm)
    cases hty : t.resolve ⟨n⟩ with
    | object o =>
      rw [hty] at hb
      -- A fixed type is no object, so that there is a position before this one.
      have hpos : n = n - 1 + 1 := by
        rcases Nat.eq_zero_or_pos n with rfl | hn
        · rw [resolve_of_get? (s.get?_fixed (i := 0) rfl)] at hty
          cases hty
        · omega
      rw [show (TypeId.mk n).index = n - 1 + 1 from hpos]
      exact .object hty (fun p hp => part _ (hb.1 p hp)) fun i hi => part _ (hb.2 i hi)
    | union ms =>
      rw [hty] at hb
      exact .union hty fun m hm => (part m (hb m hm)).mono (Nat.sub_le n 1)
    | intersection ms =>
      rw [hty] at hb
      exact .intersection hty fun m hm => (part m (hb m hm)).mono (Nat.sub_le n 1)
    | _ => exact .other (by rw [hty]; rfl) (by rw [hty]; rfl) fun ms => by rw [hty]; nofun

theorem Sound.nested_fixed (s : t.Sound) {i : Nat} {ty : Ty} (hi : TypeTable.fixed[i]? = some ty)
    (ho : ty.isObject = false) (hu : ty.isUnion = false) (hn : ∀ ms, ty ≠ .intersection ms) :
    t.Nested d ⟨i⟩ := by
  have node : t.resolve ⟨i⟩ = ty := resolve_of_get? (s.get?_fixed hi)
  exact .other (node ▸ ho) (node ▸ hu) (node ▸ hn)

/-- A union is nested as deep as the types it is made of. -/
theorem IsUnion.nested {xs : List TypeId} {u : TypeId} (s : t.Sound) (hu : t.IsUnion xs u)
    (h : ∀ x ∈ xs, t.Nested d x) : t.Nested d u := by
  have member : ∀ m ∈ t.canonicalMembers xs, t.Nested d m := by
    intro m hm
    rcases mem_of_mem_canonicalMembers hm with hm | ⟨rfl, -⟩
    · obtain ⟨x, hx, hm⟩ := List.mem_flatMap.1 hm
      unfold TypeTable.unionMembers at hm
      split at hm
      · next ms hms => exact (h x hx).union_members hms m hm
      · exact absurd hm List.not_mem_nil
      · exact List.mem_singleton.1 hm ▸ h x hx
    · exact s.nested_fixed (i := 5) rfl rfl rfl (by simp)
  rcases hu with ⟨-, rfl⟩ | hu | hu
  · exact s.nested_fixed (i := 2) rfl rfl rfl (by simp)
  · exact member u (by rw [hu]; exact .head _)
  · exact .union hu member

/-! ### The unions to distribute over -/

/-- A union that is too long to distribute over. -/
def TooLong (t : TypeTable) (m : TypeId) : Prop :=
  ∃ alternatives, t.resolve m = .union alternatives ∧ distributionLimit < alternatives.length

/-- At most so many unions of a flat list come to be distributed over: any other one is, or
stands behind, one that is too long. -/
def Distributes (t : TypeTable) (c : Nat) (flat : List TypeId) : Prop :=
  ∃ us : List TypeId, us.length ≤ c ∧ ∀ m ∈ flat, (t.resolve m).isUnion →
    m ∈ us ∨ ∃ m' ∈ flat, m'.index ≤ m.index ∧ t.TooLong m'

/-- The first union of an intersection is too long. -/
theorem CanonicalIntersection.exists_tooLong (h : t.CanonicalIntersection ms) (hm : m ∈ ms)
    (hu : (t.resolve m).isUnion) : ∃ m' ∈ ms, m'.index ≤ m.index ∧ t.TooLong m' := by
  -- Either the union is the first one, or there is one before it.
  generalize hn : m.index = n
  induction n using Nat.strongRecOn generalizing m with
  | ind n ih =>
    by_cases before : ∃ m' ∈ ms, (t.resolve m').isUnion ∧ m'.index < m.index
    · obtain ⟨m', hm', hu', hlt⟩ := before
      obtain ⟨l, hl, hle, long⟩ := ih m'.index (hn ▸ hlt) hm' hu' rfl
      exact ⟨l, hl, by omega, long⟩
    · have first : ∀ m' ∈ ms, (t.resolve m').isUnion → m.index ≤ m'.index :=
        fun m' hm' hu' => Nat.not_lt.1 fun hlt => before ⟨m', hm', hu', hlt⟩
      cases hty : t.resolve m with
      | union alternatives =>
        exact ⟨m, hm, Nat.le_of_eq hn, alternatives, hty,
          h.undistributed m hm alternatives hty first⟩
      | _ => rw [hty] at hu; cases hu

/-- A list has no more unions of its own than elements. -/
theorem Sound.distributes (s : t.Sound) (ms : List TypeId) :
    t.Distributes ms.length (t.flattenIntersection ms) := by
  refine ⟨ms, Nat.le_refl _, fun m hm hu => ?_⟩
  rcases mem_flattenIntersection.1 hm with ⟨id, hid, parts, hparts, hmem⟩ | ⟨hm, -⟩
  · have hc : t.CanonicalIntersection parts := s.canonical_node hparts
    obtain ⟨m', hm', hle, long⟩ := hc.exists_tooLong hmem hu
    exact .inr ⟨m', mem_flattenIntersection.2 (.inl ⟨id, hid, parts, hparts, hm'⟩), hle, long⟩
  · exact .inl hm

theorem Distributes.grows (h : t.Distributes c flat) (hflat : t.Has flat)
    (g : t.Grows t') : t'.Distributes c flat := by
  obtain ⟨us, hlen, hus⟩ := h
  refine ⟨us, hlen, fun m hm hu => ?_⟩
  rw [g.resolve (hflat m hm)] at hu
  refine (hus m hm hu).imp_right fun ⟨m', hm', hle, alternatives, hres, long⟩ => ?_
  exact ⟨m', hm', hle, alternatives, (g.resolve (hflat m' hm')).trans hres, long⟩

theorem Distributes.congr {flat' : List TypeId} (h : t.Distributes c flat)
    (same : ∀ m, m ∈ flat ↔ m ∈ flat') : t.Distributes c flat' := by
  obtain ⟨us, hlen, hus⟩ := h
  refine ⟨us, hlen, fun m hm hu => (hus m ((same m).2 hm) hu).imp_right ?_⟩
  rintro ⟨m', hm', hle, long⟩
  exact ⟨m', (same m').1 hm', hle, long⟩

/-- **Distributing over a union leaves one less.** -/
theorem Distributes.step (s : t.Sound) (h : t.Distributes c flat) (hinc : Increasing flat)
    (hplain : ∀ m ∈ flat, (∀ ps, t.resolve m ≠ .intersection ps) ∧ t.resolve m ≠ .unknown)
    {alternatives rest : List TypeId} (hsplit : t.splitUnion? flat = some (alternatives, rest))
    (short : alternatives.length ≤ distributionLimit) :
    ∃ c', c = c' + 1 ∧ ∀ alt ∈ alternatives,
      t.Distributes c' (t.flattenIntersection (rest ++ [alt])) := by
  obtain ⟨us, hlen, hus⟩ := h
  obtain ⟨u', hu, hperm, first⟩ := perm_of_splitUnion? hsplit
  have hmem : ∀ m, m ∈ flat ↔ m = u' ∨ m ∈ rest := fun m => hperm.mem_iff.trans List.mem_cons
  have hnodup : u' ∉ rest := (List.nodup_cons.1 (hperm.nodup_iff.1 (hinc.imp
    fun hlt heq => Nat.ne_of_lt hlt (congrArg TypeId.index heq)))).1
  have short' : ∀ m, t.TooLong m → m ≠ u' := by
    rintro m ⟨alts, hres, long⟩ rfl
    obtain rfl := Ty.union.inj (hu.symm.trans hres)
    omega
  -- The first union is not too long and stands behind none, so it is counted.
  have counted : u' ∈ us := by
    rcases hus u' ((hmem u').2 (.inl rfl)) (by rw [hu]; rfl) with h | ⟨m, hm, hle, long⟩
    · exact h
    · obtain ⟨alts, hres, -⟩ := id long
      have hge := first hinc m hm (by rw [hres]; rfl)
      refine absurd ?_ (short' m long)
      cases m
      cases u'
      exact congrArg TypeId.mk (Nat.le_antisymm hle hge)
  have hpos : 0 < us.length := List.length_pos_of_mem counted
  obtain ⟨c', rfl⟩ : ∃ k, c = k + 1 := ⟨c - 1, by omega⟩
  refine ⟨c', rfl, fun alt halt => ⟨us.erase u', ?_, fun m hm hmu => ?_⟩⟩
  · rw [List.length_erase_of_mem counted]
    omega
  rcases mem_flattenIntersection.1 hm with ⟨x, hx, parts, hparts, hm⟩ | ⟨hm, -⟩
  · -- A union of the intersection that the alternative is.
    have hci : t.CanonicalIntersection parts := s.canonical_node hparts
    obtain ⟨l, hl, hle, long⟩ := hci.exists_tooLong hm hmu
    exact .inr ⟨l, mem_flattenIntersection.2 (.inl ⟨x, hx, parts, hparts, hl⟩), hle, long⟩
  rcases List.mem_append.1 hm with hm | hm
  · -- A union that was in the list before.
    have hne : m ≠ u' := fun h => hnodup (h ▸ hm)
    rcases hus m ((hmem m).2 (.inr hm)) hmu with h | ⟨l, hl, hle, long⟩
    · exact .inl ((List.mem_erase_of_ne hne).2 h)
    · have hl' := ((hmem l).1 hl).resolve_left (short' l long)
      refine .inr ⟨l, ?_, hle, long⟩
      exact mem_flattenIntersection.2 (.inr ⟨List.mem_append_left _ hl', hplain l hl⟩)
  · have hc : t.CanonicalUnion alternatives := s.canonical_node hu
    rw [List.mem_singleton.1 hm, hc.notUnion alt halt] at hmu
    cases hmu

end TypeTable

open TypeTable List

/-! ### Steps to spare -/

section Triples

variable {t : TypeTable} {d : Nat}
variable {ms : List TypeId}

/-- What is made of types of the table is nested no deeper than they are. -/
def NoDeeper (t : TypeTable) (ms : List TypeId) (v : TypeId) : Prop :=
  ∀ d, Passes (fun t => t.Nested d) t ms v

theorem lasting_noDeeper : Lasting NoDeeper :=
  fun _ _ ms v s r h d => lasting_passes (M := fun t => t.Nested d)
    (fun s g hid => s.nested_iff g hid) _ _ ms v s r (h d)

/-- One step makes no type that is nested deeper, if the steps below it do not. -/
theorem TypeTable.MeetStep.noDeeper {t' : TypeTable} {v : TypeId} (s : t.Sound)
    (s' : t'.Sound) (r : t.Runs t') (hms : t.Has ms) (hv : t'.Has v)
    (step : t.MeetStep t' (NoDeeper t') ms v) : NoDeeper t' ms v := by
  refine fun d => ⟨r hms, hv, fun h => ?_⟩
  -- a type that is no object is not nested at all, and the fields of an object one level less
  refine step.passes (M := t'.Nested d) (N := t'.Nested (d - 1)) s r hms
    (s'.nested_fixed (i := 2) rfl rfl rfl (by simp)) (s'.nested_fixed (i := 0) rfl rfl rfl (by simp))
    (s'.nested_fixed (i := 1) rfl rfl rfl (by simp)) ?_ ?_ ?_ (fun hu => hu.nested s')
    (fun node h => .intersection node h) (fun h => (h d).2.2) (fun x y r hx hy h => ?_) h
  · rintro m l hm (node | node)
    · exact hm.union_members node
    · exact hm.intersection_members node
  · intro m o hm ho
    obtain ⟨e, rfl, hfields⟩ := hm.fields ho
    exact hfields
  · intro m o m' o' hm ho ho' hfields
    obtain ⟨e, rfl, -⟩ := hm.fields ho
    exact .object ho' hfields.1 hfields.2
  · exact (h (d - 1)).2.2 (forall_mem_cons.2 ⟨hx, forall_mem_singleton.2 hy⟩)

/-- A list of types of the table, of which one of the two measures of an intersection bounds the
nesting of objects and the other the unions to distribute over. -/
structure TypeTable.Measured (t : TypeTable) (d c : Nat) (ms : List TypeId) : Prop where
  below : Below t.size ms
  nested : ∀ m ∈ ms, t.Nested d m
  distributes : t.Distributes c (t.flattenIntersection ms)

/-- The size of the table and the length of a list are measures of it. -/
theorem TypeTable.Sound.measured (s : t.Sound) (hms : t.Has ms) :
    t.Measured t.size ms.length ms where
  below := hms
  nested m hm := (s.nested (hms m hm)).mono (Nat.le_of_lt (hms m hm))
  distributes := s.distributes ms

/-- **The intersections that a step makes in turn are of smaller measure**: it does the same when
those do. -/
theorem matches_intersectStep {c : Nat} {meet meet' : List TypeId → TableM TypeId}
    (s : t.Sound) (h : t.Measured d c ms)
    (hmeet : ∀ {e k ms' t'}, t'.Sound → t.Runs t' → t'.Measured e k ms' → e ≤ d →
      3 * e + k < 3 * d + c → MatchesAs (fun t'' r => NoDeeper t'' ms' r) t' (meet ms') (meet' ms')) :
    MatchesAs (fun t' v => NoDeeper t' ms v) t (intersectStep meet ms) (intersectStep meet' ms) := by
  obtain ⟨hms, nested, dist⟩ := h
  have flat : ∀ m ∈ t.flattenIntersection ms, t.Nested d m := by
    intro m hm
    rcases mem_flattenIntersection.1 hm with ⟨id, hid, parts, hparts, hm⟩ | ⟨hm, -⟩
    · exact (nested id hid).intersection_members hparts m hm
    · exact nested m hm
  -- the types of fields are less deep than the list
  have meeting : Meeting NoDeeper (fun t id => t.Has id ∧ ∃ e, d = e + 1 ∧ t.Nested e id) t
      meet meet' :=
    { lasting := lasting_noDeeper
      within := fun h => (h 0).2.1
      runs := by
        rintro t t' id s r ⟨hid, e, he, h⟩
        exact ⟨r hid, e, he, (s.nested_iff r hid).2 h⟩
      below := fun h => h.1
      gives := by
        rintro t x y r ⟨-, e, rfl, hx⟩ ⟨-, e', he, hy⟩ h
        obtain rfl := Nat.succ.inj he
        refine ⟨(h e).2.1, e, rfl, (h e).2.2 ?_⟩
        exact forall_mem_cons.2 ⟨hx, forall_mem_singleton.2 hy⟩
      meets := by
        rintro x y t' s' r' ⟨hx, e, rfl, hdx⟩ ⟨hy, e', he, hdy⟩
        obtain rfl := Nat.succ.inj he
        refine hmeet (k := 2) s' r' ⟨below_pair.2 ⟨hx, hy⟩, ?_,
          s'.distributes [x, y]⟩ (Nat.le_succ e) (by omega)
        exact forall_mem_cons.2 ⟨hdx, forall_mem_singleton.2 hdy⟩ }
  refine (meeting.step s hms (fun m hm o ho => ?_) ?_).mono
    fun t' v s' r' hv => hv.2.noDeeper s s' r' hms hv.1
  · obtain ⟨e, rfl, hfields⟩ := (flat m hm).fields ho
    have hb := s.below_node ho
    exact ⟨fun p hp => ⟨hb.1 p hp, e, rfl, hfields.1 p hp⟩,
      fun i hi => ⟨hb.2 i hi, e, rfl, hfields.2 i hi⟩⟩
  · intro alternatives rest alt t' hplain hsplit short halt s' r'
    obtain ⟨c', rfl, fewer⟩ := Distributes.step s (dist.congr fun _ => mem_sortIds.symm)
      increasing_sortIds (fun m hm => ⟨(hplain m hm).1, (hplain m hm).2.1⟩) hsplit short
    obtain ⟨u, hmem, hu, hrest⟩ := mem_of_splitUnion? hsplit
    have hbelow : t.Has (rest ++ [alt]) := below_append.2
      ⟨(below_sortIds (s.below_flattenIntersection hms)).subset hrest,
        below_singleton.2 (s.below_node hu alt halt)⟩
    refine hmeet (k := c') s' r' ⟨r' hbelow, fun m hm => ?_, ?_⟩ (Nat.le_refl d) (by omega)
    · refine (s.nested_iff r' (hbelow m hm)).2 ?_
      rcases mem_append.1 hm with hm | hm
      · exact flat m (mem_sortIds.1 (hrest hm))
      · exact mem_singleton.1 hm ▸ (flat u (mem_sortIds.1 hmem)).union_members hu alt halt
    · rw [(s.agreeBelow r').flattenIntersection hbelow]
      exact (fewer alt halt).grows (s.below_flattenIntersection hbelow) r'

/-- **With enough steps to go, an intersection depends neither on their number nor on what is at
the bottom.** -/
theorem matches_intersectSteps {fuel fuel' c : Nat} (bottom bottom' : List TypeId → TableM TypeId)
    (hfuel : 3 * d + c < fuel) (hfuel' : 3 * d + c < fuel') (s : t.Sound) (h : t.Measured d c ms) :
    MatchesAs (fun t' v => NoDeeper t' ms v) t (intersectStep^[fuel] bottom ms)
      (intersectStep^[fuel'] bottom' ms) := by
  induction fuel generalizing t d c fuel' ms with
  | zero => omega
  | succ fuel ih =>
    obtain ⟨fuel', rfl⟩ : ∃ k, fuel' = k + 1 := ⟨fuel' - 1, by omega⟩
    rw [Function.iterate_succ_apply', Function.iterate_succ_apply']
    exact matches_intersectStep s h fun s' _ h' _ hlt => ih (by omega) (by omega) s' h'

theorem intersectWithin_eq (fuel : Nat) :
    intersectWithin fuel = intersectStep^[fuel] fun _ => pure .never := by
  induction fuel with
  | zero => rfl
  | succ fuel ih =>
    rw [Function.iterate_succ_apply', ← ih]
    rfl

/-- The square that an intersection begins with is more than three times its root. -/
theorem TypeTable.Sound.steps_lt (s : t.Sound) (k : Nat) {n : Nat} (hn : t.size ≤ n) :
    3 * t.size + k < (n + k + 2) * (n + k + 2) := by
  have hthree : 3 ≤ n + k + 2 := by
    have : (2 : Nat) < t.size := s.below_never
    omega
  have := Nat.mul_le_mul_right (n + k + 2) hthree
  omega

/-- **An intersection is found again on every later table.** -/
theorem stable_intersectionOf (s : t.Sound) (hms : t.Has ms) : Stable t (intersectionOf ms) := by
  have recalls : ∀ n, t.size ≤ n → MatchesAs (fun t' v => NoDeeper t' ms v) t
      (intersectWithin ((t.size + ms.length + 2) * (t.size + ms.length + 2)) ms)
      (intersectWithin ((n + ms.length + 2) * (n + ms.length + 2)) ms) := fun n hn => by
    rw [intersectWithin_eq, intersectWithin_eq]
    exact matches_intersectSteps _ _ (s.steps_lt _ (Nat.le_refl _)) (s.steps_lt _ hn) s
      (s.measured hms)
  have first : Leaves Runs t _ _ := (recalls t.size (Nat.le_refl _)).1
  refine Tabled.Keeps.read rfl ⟨first.sound, first.related, (first.post.1 0).2.1, fun t' p => ?_⟩
  have hsize : t.size ≤ t'.size := (first.related.precedes p).toGrows.size_le
  have again : Leaves Runs t _ _ := (recalls t'.size hsize).1
  exact again.post.2 t' p

end Triples

end GradualTyping
