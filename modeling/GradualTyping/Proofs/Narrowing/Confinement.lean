/-
# Tests and assignments stay below a ceiling

A test filters the alternatives of a type and may change one that it keeps: a primitive
becomes a literal of it, an object gains a key.  All of this stays inside a ceiling
(`inside_narrowByTest`), and so does what an assignment leaves of a declared type
(`inside_narrowByAssignment`).  Tests that ask for a type are left out: they may replace an
alternative by any subtype of it, and subtypes of subtypes need not be subtypes.
-/

import GradualTyping.Proofs.Narrowing.Ceilings

namespace GradualTyping

open TypeTable List Reduction Narrowing

/-- What a computation leaves is read off its outcome. -/
theorem Tabled.Keeps.of_eq {α : Type} {ρ : TypeTable → TypeTable → Prop} {t : TypeTable}
    {c c' : TableM α} {Q : TypeTable → α → Prop} (heq : c t = c' t) (h : Keeps ρ t c' Q) :
    Keeps ρ t c Q := by
  obtain ⟨sound, related, post⟩ : Leaves _ _ _ _ := h
  rw [← heq] at sound related post
  exact ⟨sound, related, post⟩

/-! ### Fields -/

/-- Two objects that share no names are merged to one with the fields of both. -/
theorem MergedPair.mem_iff {P : List TypeId → TypeId → Prop} {o other more : ObjectShape}
    (ho : NamesIncrease o.properties) (hother : NamesIncrease other.properties)
    (apart : ∀ p ∈ o.properties, ∀ q ∈ other.properties, p.name ≠ q.name)
    (h : MergedPair P o other more) (p : Property) :
    p ∈ more.properties ↔ p ∈ o.properties ∨ p ∈ other.properties := by
  obtain ⟨⟨shared, ⟨into, of⟩, hmore⟩, -⟩ := h
  have left : ∀ {q q'}, q ∈ o.properties → SharedField P other q q' → q' = q := fun hq h => by
    have absent : other.property? _ = none := (searchName_eq_find? hother).trans
      (find?_eq_none.2 fun q hq' same => apart _ hq q hq' (beq_iff_eq.1 same).symm)
    unfold SharedField at h
    rwa [absent] at h
  have hshared (q : Property) : q ∈ shared ↔ q ∈ o.properties := by
    refine ⟨fun hq => ?_, fun hq => ?_⟩
    · obtain ⟨q0, hq0, h⟩ := of q hq
      exact left hq0 h ▸ hq0
    · obtain ⟨q', hq', h⟩ := into q hq
      exact left hq h ▸ hq'
  have all (q : Property) : q ∈ shared ++ other.properties.filter (fun q =>
      (o.property? q.name).isNone) ↔ q ∈ o.properties ∨ q ∈ other.properties := by
    rw [mem_append, hshared, mem_filter]
    refine or_congr_right (and_iff_left_of_imp fun hq => Option.isNone_iff_eq_none.2 ?_)
    exact (searchName_eq_find? ho).trans
      (find?_eq_none.2 fun p hp same => apart p hp q hq (beq_iff_eq.1 same))
  rw [hmore]
  refine ⟨fun hp => (all p).1 (mem_of_mem_sortProperties hp), fun hp =>
    mem_sortProperties ((all p).2 hp) fun q hq hname => ?_⟩
  rcases (all q).1 hq, hp with ⟨hq | hq, hp | hp⟩
  · exact ho.unique hp hq hname
  · exact absurd hname (apart q hq p hp)
  · exact absurd hname.symm (apart p hp q hq)
  · exact hother.unique hp hq hname

/-- A type that an intersection neither absorbs nor distributes over. -/
def Ty.isSolid : Ty → Bool
  | .object _ | .promise _ | .param _ => true
  | _ => false

namespace TypeTable

variable {t t' : TypeTable} {m d D type u : TypeId} {xs : List TypeId}

/-! ### Tests -/

theorem Inside.still (h : t.Inside D type) (top : ¬t.IsTop D) : t.Still type :=
  fun m hm => (h.resolve_left top m hm).1

/-- Below a ceiling with alternatives there are types with alternatives only. -/
theorem Inside.not_top (h : t.Inside D type) (s : t.Sound) (top : ¬t.IsTop D) : ¬t.IsTop type := by
  intro htype
  have members : t.unionMembers type = [type] := by
    rcases htype with h | h <;> rw [TypeTable.unionMembers, h]
  obtain ⟨-, d, hd, under⟩ := h.resolve_left top type (members ▸ .head _)
  cases under with
  | same =>
    unfold TypeTable.unionMembers at hd
    split at hd
    · next ms hms =>
      have hc : t.CanonicalUnion ms := s.canonical_node hms
      exact htype.elim (hc.notAny type hd) (hc.notUnknown type hd)
    · cases hd
    · exact top (mem_singleton.1 hd ▸ htype)
  | literal hl => rcases htype with h | h <;> (rw [h] at hl; cases hl)
  | object ho => rcases htype with h | h <;> (rw [h] at ho; cases ho)
  | part hp => rcases htype with h | h <;> (rw [h] at hp; cases hp)

/-- A primitive stands under itself only, and its literals under it. -/
theorem HasAbove.of_primitive (h : t.HasAbove D m) {p : Primitive}
    (hm : t.resolve m = .primitive p) {l : Literal} (hu : t.resolve u = .literal l)
    (hl : l.base = p) : t.HasAbove D u := by
  obtain ⟨-, d, hd, under⟩ := h
  refine ⟨needsEvaluation_of_isHead (by rw [hu]; rfl), d, hd, ?_⟩
  cases under with
  | same => exact .literal hu (hl ▸ hm)
  | literal h => rw [hm] at h; cases h
  | object h => rw [hm] at h; cases h
  | part h => rw [hm] at h; cases h

section Tests

variable (s : t.Sound) (hD : t.Has D) (htype : t.Has type) (h : t.Inside D type)
variable {negated : Bool}
  (top : ¬t.IsTop D)

include s hD htype h top

theorem inside_keepMembers {rule : TypeId → TableM (Option TypeId)}
    (hrule : ∀ m ∈ t.unionMembers type, ∀ t', t'.Sound → t.Runs t' → t'.Has m →
      t'.HasAbove D m → Keeps Runs t' (rule m) fun t'' o =>
        ∀ k, o = some k → t''.Has k ∧ t''.Inside D k) :
    Keeps Runs t (keepMembers type rule) fun t' u => t'.Inside D u := by
  have whole : Keeps Runs t ((t.unionMembers type).filterMapM rule >>= unionOf) fun t' u =>
      t'.Inside D u := by
    refine (Tabled.Keeps.filterMapM_all (Q := fun t k => t.Has D ∧ t.Has k ∧ t.Inside D k)
      s (fun s r ⟨hD, hk, inside⟩ => ⟨r hD, r hk, inside.grows s r.toGrows hD hk⟩)
      fun m hm t1 s1 r1 => ?_).bind fun t1 kept s1 r1 hkept => ?_
    · have hm' := s.below_unionMembers htype m hm
      refine (hrule m hm t1 s1 r1 (r1 hm') ((h.resolve_left top m hm).grows s r1.toGrows hm'
        hD)).mono fun t2 o _ r2 ho k hk => ⟨(r1.trans r2) hD, ho k hk⟩
    · exact inside_unionOf s1 (fun k hk => (hkept k hk).2.1) (r1 hD) fun k hk => (hkept k hk).2.2
  exact Tabled.Keeps.of_eq (s.keepMembers_of_still (h.still top) rule) whole

theorem inside_filterMembers {keep : TypeId → TableM Bool}
    (hkeep : ∀ m ∈ t.unionMembers type, ∀ t', t'.Sound → t.Runs t' → t'.Has m →
      Safe t' (keep m)) : Keeps Runs t (filterMembers type keep) fun t' u => t'.Inside D u := by
  refine inside_keepMembers s hD htype h top fun m hm t1 s1 r1 hm1 above => ?_
  refine (hkeep m hm t1 s1 r1 hm1).bind fun t2 holds s2 r2 _ => .pure s2 fun k hk => ?_
  obtain rfl := eq_of_ite hk
  exact ⟨r2 hm1, (above.grows s1 r2 hm1 (r1 hD)).inside s2⟩

omit hD htype in
/-- Below a ceiling with alternatives a test looks at the alternatives. -/
theorem keeps_unless_top {yes no : TableM TypeId} {Q : TypeTable → TypeId → Prop}
    (hno : Keeps Runs t no Q) :
    Keeps Runs t (do if ← isTop type then yes else no : TableM TypeId) Q := by
  have not_top : ¬(t.resolve type = .any ∨ t.resolve type = .unknown) := h.not_top s top
  refine Tabled.Keeps.of_eq ?_ hno
  rw [bind_of_eq (s.isTop_of_still (h.still top)), decide_eq_false not_top]
  rfl

theorem inside_byTag {tag : String} :
    Keeps Runs t (byTag type tag negated) fun t' u => t'.Inside D u := by
  refine keeps_unless_top s h top ?_
  refine inside_filterMembers s hD htype h top fun m _ t1 s1 _ hm => ?_
  refine .read rfl ?_
  split <;> exact .pure s1 trivial

theorem inside_byTruth :
    Keeps Runs t (byTruth type negated) fun t' u => t'.Inside D u := by
  refine keeps_unless_top s h top ?_
  refine inside_keepMembers s hD htype h top fun m _ t1 s1 r1 hm above => ?_
  split
  · next hboolean =>
    refine .pure s1 fun k hk => ?_
    have node : t1.resolve m = .primitive .boolean := hboolean ▸ s1.resolve_boolean
    obtain rfl := Option.some.inj hk
    cases negated with
    | true => exact ⟨s1.below_fixed rfl, (above.of_primitive node s1.resolve_false rfl).inside s1⟩
    | false => exact ⟨s1.below_fixed rfl, (above.of_primitive node s1.resolve_true rfl).inside s1⟩
  · refine .read rfl (.pure s1 fun k hk => ?_)
    obtain rfl := eq_of_ite hk
    exact ⟨hm, above.inside s1⟩

theorem inside_byNull (kind : NullTest) :
    Keeps Runs t (byNull type kind negated) fun t' u => t'.Inside D u := by
  refine keeps_unless_top s h top ?_
  refine inside_filterMembers s hD htype h top fun m _ t1 s1 _ hm => ?_
  exact .read rfl (.pure s1 trivial)

theorem inside_byValue {value : TypeId} (hvalue : t.Has value) :
    Keeps Runs t (byValue type value negated) fun t' u => t'.Inside D u := by
  refine keeps_unless_top s h top ?_
  refine inside_keepMembers s hD htype h top fun m _ t1 s1 r1 hm above => ?_
  have same : t1.Has m ∧ t1.Inside D m := ⟨hm, above.inside s1⟩
  have boolean : ∀ {k : TypeId} {l : Literal}, m = .boolean → t1.resolve k = .literal l →
      l.base = .boolean → t1.Has k → t1.Has k ∧ t1.Inside D k := fun hm hk hl below =>
    ⟨below, (above.of_primitive (hm ▸ s1.resolve_boolean) hk hl).inside s1⟩
  have below_true : t1.Has TypeId.true := s1.below_fixed rfl
  have below_false : t1.Has TypeId.false := s1.below_fixed rfl
  split
  · refine .pure s1 fun k hk => ?_
    cases negated with
    | true => cases hk
    | false => exact Option.some.inj hk ▸ same
  split
  · next hboth =>
    refine .pure s1 fun k hk => Option.some.inj hk ▸ ?_
    split
    · exact boolean hboth.1 s1.resolve_false rfl below_false
    · exact hboth.2 ▸ boolean hboth.1 s1.resolve_true rfl below_true
  split
  · next hboth =>
    refine .pure s1 fun k hk => Option.some.inj hk ▸ ?_
    split
    · exact boolean hboth.1 s1.resolve_true rfl below_true
    · exact hboth.2 ▸ boolean hboth.1 s1.resolve_false rfl below_false
  split
  · exact .pure s1 fun k hk => Option.some.inj hk ▸ same
  · -- a primitive becomes the value
    refine .read rfl (.read rfl ?_)
    dsimp only
    split
    · next p hp =>
      refine .pure s1 fun k hk => ?_
      split at hk
      · next hbase =>
        obtain rfl := Option.some.inj hk
        replace hbase : some p = (t1.resolve value).base? := hbase
        refine ⟨r1 hvalue, ?_⟩
        cases hnode : t1.resolve value with
        | primitive q =>
          rw [hnode] at hbase
          obtain rfl := Option.some.inj hbase
          have : value = m := s1.get?_inj (get?_of_resolve hnode nofun) (get?_of_resolve hp nofun)
          exact this ▸ same.2
        | literal l =>
          rw [hnode] at hbase
          exact (above.of_primitive hp hnode (Option.some.inj hbase).symm).inside s1
        | _ => rw [hnode] at hbase; cases hbase
      · cases hk
    · exact .pure s1 fun k hk => Option.some.inj hk ▸ same
    · exact .pure s1 fun k hk => nomatch hk

theorem inside_byField {field : String} {value : TypeId} (hvalue : t.Has value) :
    Keeps Runs t (byField type field value negated) fun t' u => t'.Inside D u := by
  refine keeps_unless_top s h top ?_
  refine inside_filterMembers s hD htype h top fun m _ t1 s1 r1 hm => .read rfl ?_
  split
  · exact .pure s1 trivial
  · next fieldType hfield =>
    refine (safe_evaluate s1 (below_field? (s1.below_resolve m) field fieldType hfield)).bind
      fun t2 fieldType s2 r2 hfieldType => ?_
    split
    · exact .pure s2 trivial
    · exact safe_isSubtype s2 ((r1.trans r2) hvalue) hfieldType

end Tests

/-! ### Keys -/

theorem sortIds_pair {a b : TypeId} (hne : a ≠ b) : sortIds [a, b] = [a, b] ∨ sortIds [a, b] = [b, a] := by
  have increasing : ∀ {x y : TypeId}, x.index < y.index → Increasing [x, y] := fun h =>
    pairwise_pair.2 h
  rcases Nat.lt_or_gt_of_ne (fun e => hne (congrArg TypeId.mk e)) with h | h
  · exact .inl (sortIds_of_increasing (increasing h))
  · right
    refine increasing_ext increasing_sortIds (increasing h) fun x => ?_
    rw [mem_sortIds]
    simp [or_comm]

section Pairs

variable {P : List TypeId → TypeId → Prop} {k v : TypeId} {o other : ObjectShape} (s : t.Sound)
  (hxs : ∀ x, x ∈ xs ↔ x = m ∨ x = k) (step : t.MeetStep t' P xs v)

include s hxs step

/-- What is made of two types that nothing absorbs: their parts, joined. -/
theorem MeetStep.pair (hm : (t.resolve m).isSolid) (hk : (t.resolve k).isSolid) :
    v = m ∧ v = k ∨ ∃ object, t'.Merged P ((sortIds [m, k]).filterMap t.shape?) object ∧
      t'.IsIntersection (sortIds ((sortIds [m, k]).filter t.isOther ++ object.toList)) v := by
  have solid : ∀ x ∈ xs, (t.resolve x).isSolid := fun x hx =>
    ((hxs x).1 hx).elim (fun e => e ▸ hm) fun e => e ▸ hk
  have flat : t.flattenIntersection xs = xs := by
    refine flatMap_self fun x hx => ?_
    have hx := solid x hx
    split
    · next h => rw [h] at hx; cases hx
    · next h => rw [h] at hx; cases hx
    · rfl
  have sorted : sortIds xs = sortIds [m, k] :=
    increasing_ext increasing_sortIds increasing_sortIds fun x => by simp [mem_sortIds, hxs]
  have atoms : ∀ x ∈ sortIds xs, t.isAtom x = false := by
    intro x hx
    have hx := solid x (mem_sortIds.1 hx)
    unfold Ty.isSolid at hx
    unfold isAtom
    split at hx
    · next h => rw [h]; rfl
    · next h => rw [h]; rfl
    · next h => rw [h]; rfl
    · cases hx
  have parts : t.parts? {} (sortIds xs) = some
      { objects := (sortIds xs).filterMap t.shape?, others := (sortIds xs).filter t.isOther } := by
    rw [parts?_eq (pairwise_iff_forall_sublist.2 fun h both => ?_) (by simp)]
    · simpa using atoms
    · rw [atoms _ (h.subset (.head _))] at both
      cases both.1
  have never : t.resolve .never = .never := resolve_of_get? (s.get?_fixed (i := 2) rfl)
  have any : t.resolve .any = .any := resolve_of_get? (s.get?_fixed (i := 0) rfl)
  cases step with
  | never h => cases never ▸ solid _ (flat ▸ h)
  | any h => cases any ▸ solid _ (flat ▸ h)
  | unknown h => exact absurd ((hxs m).2 (.inl rfl)) (flat ▸ h ▸ not_mem_nil)
  | one h =>
    rw [flat] at h
    exact .inl ⟨((h m).1 ((hxs m).2 (.inl rfl))).symm, ((h k).1 ((hxs k).2 (.inr rfl))).symm⟩
  | distribute hsplit =>
    rw [flat] at hsplit
    obtain ⟨x, hx, hunion, -⟩ := mem_of_splitUnion? hsplit
    cases hunion ▸ solid x (mem_sortIds.1 hx)
  | disjoint h => cases parts.symm.trans (flat ▸ h)
  | empty h empty =>
    cases parts.symm.trans (flat ▸ h)
    simp [Parts.isEmpty] at empty
  | joined h merged joined =>
    cases parts.symm.trans (flat ▸ h)
    rw [← sorted]
    exact .inr ⟨_, merged, by simpa using joined⟩

variable (sF : t'.Sound) (g : t.Grows t')

include sF g

/-- What is made of two objects that share no names is an object with the fields of both. -/
theorem MeetStep.objects (hm : t.resolve m = .object o) (hk : t.resolve k = .object other)
    (apart : ∀ p ∈ o.properties, ∀ q ∈ other.properties, p.name ≠ q.name) :
    ∃ more, t'.resolve v = .object more ∧
      (∀ p, p ∈ more.properties ↔ p ∈ o.properties ∨ p ∈ other.properties) ∧
      (o.index = none → more.index = other.index) := by
  have ho : NamesIncrease o.properties := s.canonical_node hm
  have hother : NamesIncrease other.properties := s.canonical_node hk
  have hm' := shape?_eq_some.2 hm
  have hk' := shape?_eq_some.2 hk
  have made : v = m ∧ m = k ∨ ∃ more a as, (sortIds [m, k]).filterMap t.shape? = a :: as ∧
      MergedAll P a as more ∧ t'.resolve v = .object more := by
    obtain ⟨rfl, rfl⟩ | ⟨object, merged, joined⟩ :=
      step.pair s hxs (by rw [hm]; rfl) (by rw [hk]; rfl)
    · exact .inl ⟨rfl, rfl⟩
    have others : (sortIds [m, k]).filter t.isOther = [] := by
      refine filter_eq_nil_iff.2 fun x hx => ?_
      rcases mem_pair.1 (mem_sortIds.1 hx) with rfl | rfl <;> simp [isOther, hm', hk']
    cases shapes : (sortIds [m, k]).filterMap t.shape? with
    | nil => cases (filterMap_eq_nil_iff.1 shapes m (mem_sortIds.2 (.head _))).symm.trans hm'
    | cons a as =>
      rw [shapes] at merged
      rw [others] at joined
      obtain ⟨id, more, rfl, hmore, all⟩ := merged
      have one : sortIds ([] ++ (some id).toList) = [id] :=
        sortIds_of_increasing (pairwise_singleton ..)
      rw [one] at joined
      rcases joined with ⟨hnil, -⟩ | hone | hnode
      · cases hnil
      · obtain rfl := singleton_inj.1 hone
        exact .inr ⟨more, a, as, rfl, all, hmore⟩
      · have hc : t'.CanonicalIntersection [id] := sF.canonical_node hnode
        exact absurd hc.several (by simp)
  rcases eq_or_ne m k with rfl | hne
  · obtain rfl := Ty.object.inj (hm.symm.trans hk)
    have one : sortIds [m, m] = [m] := increasing_ext increasing_sortIds
      (pairwise_singleton ..) fun x => by simp [mem_sortIds]
    refine ⟨o, ?_, fun p => or_self_iff.symm, fun _ => rfl⟩
    rcases made with ⟨rfl, -⟩ | ⟨more, a, as, shapes, all, hmore⟩
    · exact resolve_of_get? (g.get? (get?_of_resolve hm (by simp)))
    · simp only [one, filterMap_cons_some hm', filterMap_nil, List.cons.injEq] at shapes
      obtain ⟨rfl, rfl⟩ := shapes
      cases all
      exact hmore
  obtain ⟨more, a, as, shapes, all, hmore⟩ := made.resolve_left fun h => hne h.2
  refine ⟨more, hmore, ?_⟩
  rcases sortIds_pair hne with hsort | hsort
  all_goals
    simp only [hsort, filterMap_cons_some hm', filterMap_cons_some hk',
      filterMap_nil, List.cons.injEq] at shapes
    obtain ⟨rfl, rfl⟩ := shapes
    obtain _ | ⟨pair, ⟨⟩⟩ := all
    have index := pair.index
  · exact ⟨pair.mem_iff ho hother apart, fun closed => by rwa [closed] at index⟩
  · refine ⟨fun p => (pair.mem_iff hother ho (fun q hq p hp => (apart p hp q hq).symm) p).trans
      or_comm, fun closed => ?_⟩
    rw [closed] at index
    revert index
    cases other.index <;> exact id

/-- A promise or a type parameter stands beside an object. -/
theorem MeetStep.beside (hm : (t.resolve m).isSolid) (apart : t.shape? m = none)
    (hk : t.resolve k = .object other) : t'.resolve v = .intersection (sortIds [m, k]) := by
  have hk' := shape?_eq_some.2 hk
  have hne : m ≠ k := by
    rintro rfl
    cases apart.symm.trans hk'
  obtain ⟨rfl, h⟩ | ⟨object, merged, joined⟩ := step.pair s hxs hm (by rw [hk]; rfl)
  · exact absurd h hne
  have hother : t.isOther m = true := isOther_iff.2 ⟨by
    cases h : t.resolve m <;> rw [h] at hm <;> first | cases hm; done | rw [isAtom, h]; rfl, apart⟩
  have parts : (sortIds [m, k]).filterMap t.shape? = [other] ∧ (sortIds [m, k]).filter t.isOther = [m] := by
    rcases sortIds_pair hne with hsort | hsort <;> simp [hsort, apart, hk', hother, isOther_iff]
  rw [parts.1] at merged
  rw [parts.2] at joined
  obtain ⟨id, more, rfl, hmore, ⟨⟩⟩ := merged
  obtain rfl : id = k :=
    sF.get?_inj (get?_of_resolve hmore (by simp)) (g.get? (get?_of_resolve hk (by simp)))
  change t'.IsIntersection (sortIds [m, id]) v at joined
  have both : m ∈ sortIds [m, id] ∧ id ∈ sortIds [m, id] := by simp [mem_sortIds]
  rcases joined with ⟨hnil, -⟩ | hone | hnode
  · rw [hnil] at both
    exact absurd both.1 not_mem_nil
  · rw [hone] at both
    exact absurd ((mem_singleton.1 both.1).trans (mem_singleton.1 both.2).symm) hne
  · exact hnode

end Pairs

/-- An alternative that gains a key that it does not name stays inside. -/
theorem inside_gainKey {withKey : TypeId} {p : Property} (s : t.Sound) (hD : t.Has D)
    (hm : t.Has m) (above : t.HasAbove D m) (hkey : t.Has withKey)
    (node : t.resolve withKey = .object ⟨[p], none⟩)
    (unnamed : ((t.resolve m).object?.bind (·.property? p.name)).isSome = false) :
    Keeps Runs t (gainKey withKey m) fun t' o =>
      ∀ k, o = some k → t'.Has k ∧ t'.Inside D k := by
  have hboth : t.Has [m, withKey] := below_pair.2 ⟨hm, hkey⟩
  have same : ∀ k, some m = some k → t.Has k ∧ t.Inside D k := fun k hk =>
    Option.some.inj hk ▸ ⟨hm, above.inside s⟩
  obtain ⟨-, d, hd, under⟩ := above
  have hd' := s.below_unionMembers hD d hd
  have later : ∀ {t'}, t.Grows t' → d ∈ t'.unionMembers D := fun g => by
    rwa [(s.agreeBelow g).unionMembers hD]
  refine .read rfl ?_
  split
  · next o ho =>
    replace ho : t.resolve m = .object o := ho
    split
    · next closed =>
      replace unnamed : (o.property? p.name).isSome = false := by rwa [ho] at unnamed
      have apart : ∀ q ∈ o.properties, ∀ p' ∈ [p], q.name ≠ p'.name := by
        intro q hq p' hp' same
        rw [mem_singleton.1 hp'] at same
        simp only [Option.isSome_eq_false_iff, Option.isNone_iff_eq_none, ObjectShape.property?,
          searchName_eq_find? (s.canonical_node ho), find?_eq_none] at unnamed
        exact unnamed q hq (beq_iff_eq.2 same)
      refine (keeps_intersectionOf_step s hboth).bind fun t' v s' g made =>
        .pure s' fun k hk => Option.some.inj hk ▸ ⟨made.1, ?_⟩
      obtain ⟨more, hmore, fields, -⟩ :=
        made.2.objects s (fun _ => mem_pair) s' g ho node apart
      have extended : more.Extends o := ⟨Option.isNone_iff_eq_none.1 closed, fun q hq =>
        NamesIncrease.property? (s'.canonical_node hmore) ((fields q).2 (.inl hq))⟩
      refine HasAbove.inside ⟨needsEvaluation_of_isHead (by rw [hmore]; rfl), d, later g, ?_⟩ s'
      cases under with
      | same => exact .object hmore ((g.resolve hm).trans ho) extended
      | object hm' hd'' extended' =>
        obtain rfl := Ty.object.inj (hm'.symm.trans ho)
        exact .object hmore ((g.resolve hd').trans hd'') (extended.trans extended')
      | literal h => rw [ho] at h; cases h
      | part h => rw [ho] at h; cases h
    · exact .pure s same
  · next i hi =>
    replace hi : t.resolve m = .promise i := hi
    refine (keeps_intersectionOf_step s hboth).bind fun t' v s' g made =>
      .pure s' fun k hk => Option.some.inj hk ▸ ⟨made.1, ?_⟩
    have hms := made.2.beside s (fun _ => mem_pair) s' g (by rw [hi]; rfl)
      (by rw [shape?, hi]) node
    have hmem : m ∈ sortIds [m, withKey] := mem_sortIds.2 (.head _)
    have quiet : needsEvaluation t' v = false := by
      rw [needsEvaluation, hms]
      refine any_eq_false.2 fun x hx => ?_
      rcases mem_pair.1 (mem_sortIds.1 hx) with rfl | rfl
      · rw [isReducible, g.resolve hm, hi]; exact Bool.false_ne_true
      · rw [isReducible, g.resolve hkey, node]; exact Bool.false_ne_true
    refine HasAbove.inside ⟨quiet, d, later g, ?_⟩ s'
    cases under with
    | same => exact .part hms hmem
    | object h => rw [hi] at h; cases h
    | literal h => rw [hi] at h; cases h
    | part h => rw [hi] at h; cases h
  · exact .pure s same
  · exact .pure s same
  · exact .pure s same
  · exact .pure s same
  · exact .pure s fun k hk => by cases hk

/-- The object with one key of an unknown type. -/
theorem keeps_keyObject (s : t.Sound) {key : String} :
    Keeps Runs t (objectOf [{ name := key, type := .unknown }] none) fun t' k =>
      t'.Has k ∧ t'.resolve k = .object ⟨[{ name := key, type := .unknown }], none⟩ := by
  have made : Leaves Runs t (objectOf [{ name := key, type := .unknown }] none) _ :=
    safe_objectOf s (below_singleton.2 s.below_unknown) below_none
  exact ⟨made.sound, made.related, made.post, (resolve_of_get? s.indexed.get?_insert).trans
    (by rw [sortProperties_of_namesIncrease (pairwise_singleton ..)])⟩

theorem inside_byKey (s : t.Sound) (hD : t.Has D) (htype : t.Has type)
    (h : t.Inside D type) (top : ¬t.IsTop D) {key : String} {negated : Bool} :
    Keeps Runs t (byKey type key negated) fun t' u => t'.Inside D u := by
  refine Tabled.Keeps.of_eq (byKey_of_still s (h.still top)) ?_
  refine keeps_unless_top s h top ?_
  split
  · next unnamed =>
    have unnamed : namesKey t type key = false := by
      rw [Bool.and_eq_true, Bool.not_eq_true', Bool.not_eq_true'] at unnamed
      exact unnamed.2
    refine Tabled.Keeps.bind (keeps_keyObject s) fun t1 withKey s1 r1 ⟨hkey, node⟩ => ?_
    have top1 : ¬t1.IsTop D := by rwa [IsTop, r1.resolve hD]
    refine inside_keepMembers s1 (r1 hD) (r1 htype) (h.grows s r1 hD htype) top1
      fun m hm t2 s2 r2 hm2 above => ?_
    rw [(s.agreeBelow r1).unionMembers htype] at hm
    refine inside_gainKey s2 ((r1.trans r2) hD) hm2 above (r2 hkey)
      ((r2.resolve hkey).trans node) (p := { name := key, type := .unknown }) ?_
    rw [(r1.trans r2).resolve (s.below_unionMembers htype m hm)]
    exact Bool.eq_false_iff.2 fun e => Bool.eq_false_iff.1 unnamed (any_eq_true.2 ⟨m, hm, e⟩)
  · exact inside_filterMembers s hD htype h top fun m _ t1 s1 _ _ => .read rfl (.pure s1 trivial)

/-- **Tests stay inside**, unless they ask for a type. -/
theorem inside_narrowByTest (s : t.Sound) (hD : t.Has D) (htype : t.Has type)
    (h : t.Inside D type) {test : Test} (htest : t.Has test)
    (asks : ∀ target, test ≠ .instanceOf target ∧ test ≠ .predicate target) {negated : Bool} :
    Keeps Runs t (narrowByTest type test negated) fun t' u => t'.Inside D u := by
  by_cases top : t.IsTop D
  · have safe : Leaves Runs t (narrowByTest type test negated) _ :=
      safe_narrowByTest s htype htest negated
    exact ⟨safe.sound, safe.related, .inl (by rwa [IsTop, safe.related.resolve hD])⟩
  cases test with
  | typeOf tag => exact inside_byTag s hD htype h top
  | truthy => exact inside_byTruth s hD htype h top
  | nullish kind => exact inside_byNull s hD htype h top kind
  | equals value => exact inside_byValue s hD htype h top (htest value rfl)
  | fieldEquals field value => exact inside_byField s hD htype h top (htest value rfl)
  | hasKey key => exact inside_byKey s hD htype h top
  | instanceOf target => exact absurd rfl (asks target).1
  | predicate target => exact absurd rfl (asks target).2

/-! ### Assignments -/

/-- **Assignments stay inside.** -/
theorem inside_narrowByAssignment (s : t.Sound) (hD : t.Has D) (plain : t.Plain D)
    {assigned : TypeId} (ha : t.Has assigned) :
    Keeps Runs t (narrowByAssignment D assigned) fun t' u => t'.Inside D u := by
  have hmembers := s.below_unionMembers hD
  refine Tabled.Keeps.of_eq (bind_of_eq (s.namedMembers_of_still plain.still)) ?_
  split
  · exact .pure s plain.inside
  · refine .read rfl ?_
    refine (keeps_firstHomes s hmembers (s.below_unionMembers ha)).bind fun t1 homes s1 r1 hhomes => ?_
    have plain1 := plain.grows s r1.toGrows hD
    cases homes with
    | none => exact .pure s1 plain1.inside
    | some homes =>
      have each := hhomes homes rfl
      refine inside_unionOf s1 (fun x hx => r1 (hmembers x (each x hx))) (r1 hD)
        fun x hx => ?_
      have mem : x ∈ t1.unionMembers D := by
        rw [(s.agreeBelow r1).unionMembers hD]
        exact each x hx
      exact HasAbove.inside ⟨plain1.still x mem, x, mem, .same⟩ s1

end TypeTable

end GradualTyping
