/-
# What an assignment leaves of a declared type

An assigned type is at home in the first member of the declared type that it is a
subtype of (`home`), and an assignment narrows the variable to the homes of the
alternatives of what is assigned (`Assigned`).  Where it finds them, they are found
again on every later table (`keeps_homes`).

One assignment therefore leaves less than another if its homes are among those of the
other.  A subtype has the homes of its supertype where one member at most accepts each of
its alternatives (`homes_subset`), but not always: `any` is a subtype of everything, and at
home in whichever member comes first (`any_leaves_first`).
-/

import GradualTyping.Proofs.Narrowing.Conditions
import GradualTyping.Proofs.Narrowing.Confinement

namespace GradualTyping

open TypeTable List

namespace TypeTable

variable {t : TypeTable} {D a A B m u v : TypeId} {members ms xs : List TypeId}

/-- The first member of a declared type that a type is within. -/
def home (t : TypeTable) (D a : TypeId) : Option TypeId :=
  (t.unionMembers D).find? fun m => (isSubtype a m t).1

/-- The homes of what is assigned. -/
def homes (t : TypeTable) (D A : TypeId) : List (Option TypeId) :=
  (t.unionMembers A).map (t.home D)

/-! ### Homes are found once and for all -/

theorem keeps_home (s : t.Sound) (rest : t.evaluating = []) (hmembers : t.Has members)
    (ha : t.Has a) : Keeps Runs t (members.findM? (isSubtype a)) fun t1 home =>
      ∀ t2, t1.Resumes t2 → members.find? (fun m => (isSubtype a m t2).1) = home := by
  induction members generalizing t with
  | nil => exact .pure s fun _ _ => rfl
  | cons m members ih =>
    obtain ⟨hm, hmembers⟩ := below_cons.1 hmembers
    refine Tabled.Keeps.bind (Answers.of_repeats (repeats_isSubtype s ha hm) rest)
      fun t1 within s1 r1 ⟨_, answers⟩ => ?_
    cases within with
    | true =>
      exact .pure s1 fun t2 p => find?_cons_of_pos ((answers.later p).run p.self)
    | false =>
      refine (ih s1 (r1.evaluating.trans rest) (r1 hmembers) (r1 ha)).mono
        fun t2 home _ r2 found t3 p => ?_
      have outside := ((answers.runs r2).later p).run p.self
      rw [find?_cons, outside]
      exact found t3 p

/-- All homes, if there is one for each type. -/
def Found (homes : List (Option TypeId)) : Option (List TypeId) → Prop
  | none => none ∈ homes
  | some hs => homes = hs.map some

theorem keeps_homes (s : t.Sound) (rest : t.evaluating = []) (hmembers : t.Has members)
    (hxs : t.Has xs) : Keeps Runs t (firstHomes members xs) fun t1 found =>
      ∀ t2, t1.Resumes t2 → Found (xs.map fun a => members.find? fun m => (isSubtype a m t2).1) found := by
  induction xs generalizing t with
  | nil => exact .pure s fun _ _ => rfl
  | cons a xs ih =>
    obtain ⟨ha, hxs⟩ := below_cons.1 hxs
    refine (keeps_home s rest hmembers ha).bind fun t1 home s1 r1 first => ?_
    cases home with
    | none => exact .pure s1 fun t2 p => mem_cons.2 (.inl (first t2 p).symm)
    | some home =>
      refine (ih s1 (r1.evaluating.trans rest) (r1 hmembers) (r1 hxs)).bind
        fun t2 found s2 r2 others => .pure s2 fun t3 p => ?_
      have others := others t3 p
      cases found with
      | none => exact .tail _ others
      | some hs => exact congrArg₂ List.cons (first t3 (r2.resumes p)) others

/-- What an assignment leaves of a declared type: the union of the homes of what is assigned, or
all of it. -/
def Assigned (t : TypeTable) (D A u : TypeId) : Prop :=
  u = D ∧ ((t.unionMembers D).length < 2 ∨ none ∈ t.homes D A) ∨
    2 ≤ (t.unionMembers D).length ∧ ∃ hs, t.homes D A = hs.map some ∧ t.IsUnion hs u

theorem keeps_assigned (s : t.Sound) (rest : t.evaluating = []) (hD : t.Has D)
    (still : t.Still D) (hA : t.Has A) :
    Keeps Runs t (narrowByAssignment D A) fun t1 u => ∀ t2, t1.Resumes t2 → t2.Assigned D A u := by
  have hmembers := s.below_unionMembers hD
  have hassigned := s.below_unionMembers hA
  have members : ∀ {t'}, t.Grows t' →
      t'.unionMembers D = t.unionMembers D ∧ t'.unionMembers A = t.unionMembers A := fun g =>
    ⟨(s.agreeBelow g).unionMembers hD, (s.agreeBelow g).unionMembers hA⟩
  refine Tabled.Keeps.of_eq (bind_of_eq (s.namedMembers_of_still still)) ?_
  split
  · next few => exact .pure s fun t2 p => .inl ⟨rfl, .inl (by rwa [(members p.toGrows).1])⟩
  · next several =>
    refine .read rfl ?_
    refine Tabled.Keeps.bind ((keeps_homes s rest hmembers hassigned).and
      (keeps_firstHomes s hmembers hassigned)) fun t1 found s1 r1 ⟨homes, among⟩ => ?_
    have homesAt : ∀ t2, t1.Resumes t2 → Found (t2.homes D A) found := fun t2 p => by
      have members := members (r1.toGrows.trans p.toGrows)
      unfold TypeTable.homes TypeTable.home
      rw [members.1, members.2]
      exact homes t2 p
    cases found with
    | none => exact .pure s1 fun t2 p => .inl ⟨rfl, .inr (homesAt t2 p)⟩
    | some hs =>
      have hhs : t1.Has hs := fun h hh => r1 (hmembers h (among hs rfl h hh))
      have made : Leaves Runs t1 (unionOf hs) _ := safe_unionOf s1 hhs
      have r2 := made.related
      refine ⟨made.sound, r2, fun t2 p => .inr ⟨?_, hs, homesAt t2 (r2.resumes p), ?_⟩⟩
      · rw [(members ((r1.trans r2).toGrows.trans p.toGrows)).1]
        exact Nat.le_of_not_lt several
      · exact s1.isUnion_unionOf hhs p.toGrows

/-! ### More homes leave more -/

/-- Of the members of a union, none is absorbed by others. -/
theorem CanonicalUnion.mem_canonicalMembers (h : t.CanonicalUnion ms) (s : t.Sound)
    (hxs : ∀ x ∈ xs, x ∈ ms) : m ∈ t.canonicalMembers xs ↔ m ∈ xs := by
  have flat : t.flattenUnion xs = xs := flatMap_self fun x hx => h.unionMembers (hxs x hx)
  have notBoth : ¬(.true ∈ xs ∧ .false ∈ xs) := fun both =>
    h.notBothBooleans ⟨hxs _ both.1, hxs _ both.2⟩
  have mem : ∀ {k}, t.Uncovered xs k → k ∈ xs := fun hk =>
    hk.1.resolve_right fun both => notBoth both.2
  rw [s.mem_canonicalMembers, flat]
  · refine ⟨fun kept => mem kept.uncovered, fun hm => ⟨⟨.inl hm, fun l hl present => ?_⟩,
      fun k hk same => ?_⟩⟩
    · rcases present with hp | ⟨-, both⟩
      · exact h.uncovered m (hxs m hm) l hl _ (hxs _ hp) (s.resolve_primitive l.base)
      · exact notBoth both
    · by_cases eq : k = m
      · exact eq ▸ Nat.le_refl _
      · rw [h.distinct k (hxs k (mem hk)) m (hxs m hm) eq] at same
        cases same
  · rw [flat]
    exact fun hany => h.notAny _ (hxs _ hany) s.resolve_any
  · rw [flat]
    exact fun hunknown => h.notUnknown _ (hxs _ hunknown) s.resolve_unknown

theorem Sound.canonical_of_several (s : t.Sound) (h : 2 ≤ (t.unionMembers D).length) :
    t.resolve D = .union (t.unionMembers D) ∧ t.CanonicalUnion (t.unionMembers D) := by
  cases node : t.resolve D with
  | union ms =>
    rw [TypeTable.unionMembers, node]
    exact ⟨rfl, s.canonical_node node⟩
  | _ =>
    rw [TypeTable.unionMembers, node] at h
    exact absurd h (by simp)

theorem mem_of_homes {hs : List TypeId} (h : t.homes D A = hs.map some) :
    ∀ x ∈ hs, x ∈ t.unionMembers D := fun x hx => by
  have hx : some x ∈ t.homes D A := h ▸ mem_map_of_mem hx
  obtain ⟨a, -, ha⟩ := mem_map.1 hx
  exact mem_of_find?_eq_some ha

/-- **A subtype has its homes among those of its supertype** if each of its alternatives is within
the members that an alternative of the supertype with a home is within, and within one at most. -/
theorem homes_subset (within : ∀ a ∈ t.unionMembers A, ∃ b ∈ t.unionMembers B, (t.home D b).isSome ∧
      ∀ m ∈ t.unionMembers D, (isSubtype b m t).1 = true → (isSubtype a m t).1 = true)
    (one : ∀ a ∈ t.unionMembers A, ∀ m ∈ t.unionMembers D, ∀ k ∈ t.unionMembers D,
      (isSubtype a m t).1 = true → (isSubtype a k t).1 = true → m = k) :
    t.homes D A ⊆ t.homes D B := by
  intro _ h
  obtain ⟨a, ha, rfl⟩ := mem_map.1 h
  obtain ⟨b, hb, settled, above⟩ := within a ha
  obtain ⟨m, hm⟩ := Option.isSome_iff_exists.1 settled
  have member := mem_of_find?_eq_some hm
  have accepts := above m member (find?_some (p := fun m => (isSubtype b m t).1) hm)
  obtain ⟨k, hk⟩ : ∃ k, t.home D a = some k :=
    Option.isSome_iff_exists.1 (find?_isSome.2 ⟨m, member, accepts⟩)
  obtain rfl := one a ha m member k (mem_of_find?_eq_some hk) accepts
    (find?_some (p := fun m => (isSubtype a m t).1) hk)
  exact mem_map.2 ⟨b, hb, hm.trans hk.symm⟩

/-- **Where the homes are among those of another assignment, less is left.** -/
theorem Assigned.inside (s : t.Sound) (plain : t.Plain D) (hu : t.Assigned D A u)
    (hv : t.Assigned D B v) (less : t.homes D A ⊆ t.homes D B) : t.Plain v ∧ t.Inside v u := by
  have above : ∀ x ∈ t.unionMembers D, ∀ {w}, x ∈ t.unionMembers w → t.Inside w x := fun x hx w hw =>
    HasAbove.inside ⟨plain.still x hx, x, hw, .same⟩ s
  rcases hv with ⟨rfl, -⟩ | ⟨several, hs', homes', isUnion'⟩
  · refine ⟨plain, ?_⟩
    rcases hu with ⟨rfl, -⟩ | ⟨-, hs, homes, isUnion⟩
    · exact plain.inside
    · exact isUnion.inside s fun x hx => above x (mem_of_homes homes x hx) (mem_of_homes homes x hx)
  have all : none ∉ t.homes D B := by simp [homes']
  have among := mem_of_homes homes'
  obtain ⟨node, canonical⟩ := s.canonical_of_several several
  have kept : ∀ x, x ∈ t.unionMembers v ↔ x ∈ hs' := fun x => by
    rw [isUnion'.unionMembers s, canonical.mem_canonicalMembers s among]
  refine ⟨⟨fun m hm => plain.still m (among m ((kept m).1 hm)), fun _ d hd => plain.meetless
    (by rw [node]; rfl) d (among d ((kept d).1 hd))⟩, ?_⟩
  rcases hu with ⟨rfl, few | none⟩ | ⟨-, hs, homes, isUnion⟩
  · omega
  · exact absurd (less none) all
  · refine isUnion.inside s fun x hx => ?_
    have hx' : some x ∈ t.homes D B := less (homes ▸ mem_map_of_mem hx)
    rw [homes', mem_map_of_injective (Option.some_injective _)] at hx'
    exact above x (among x hx') ((kept x).2 hx')

end TypeTable

/-- **More homes leave more.**  Of a declared type whose alternatives evaluation leaves alone, none
of several an intersection, an assignment leaves less than another one if the first members that
accept its alternatives are among those of the other. -/
theorem TypeTable.Reachable.narrowByAssignment_mono {t : TypeTable} (h : t.Reachable)
    {D A B : TypeId} (hD : Below t.size D) (plain : t.Plain D) (hA : Below t.size A)
    (hB : Below t.size B) :
    let x := narrowByAssignment D A t
    let y := narrowByAssignment D B x.2
    let less := isSubtype x.1 y.1 y.2
    y.2.homes D A ⊆ y.2.homes D B → less.2.Untripped → less.1 = true := by
  intro x y less homes untripped
  have s := h.sound
  have rest := h.quiescent.evaluating
  have first : Leaves Runs t (narrowByAssignment D A) _ :=
    (keeps_assigned s rest hD plain.still hA).and (safe_narrowByAssignment s hD hA)
  have r := first.related
  have rest1 : x.2.evaluating = [] := r.evaluating.trans rest
  have plain1 := plain.grows s r.toGrows hD
  have second : Leaves Runs x.2 (narrowByAssignment D B) _ :=
    (keeps_assigned first.sound rest1 (r hD) plain1.still (r hB)).and
      (safe_narrowByAssignment first.sound (r hD) (r hB))
  have r' := second.related
  have rest2 : y.2.evaluating = [] := r'.evaluating.trans rest1
  have hx : Below y.2.size x.1 := r' first.post.2
  have run : Leaves Runs y.2 (isSubtype x.1 y.1) _ := safe_isSubtype second.sound hx second.post.2
  have self : y.2.Resumes y.2 := ⟨.refl second.sound (run.related.untripped untripped), rfl, rest2⟩
  have inside := Assigned.inside second.sound (plain1.grows first.sound r' (r hD))
    (first.post.1 y.2 (r'.resumes self)) (second.post.1 y.2 self) homes
  exact inside.2.isSubtype second.sound rest2 inside.1 second.post.2 hx untripped

/-- The number of `null | true`. -/
def nullable : TypeId := (unionOf [.null, .true] (.withLimits {})).1

/-- The table where it has it. -/
def nullableTable : TypeTable := (unionOf [.null, .true] (.withLimits {})).2

theorem reachable_nullableTable : nullableTable.Reachable :=
  (TypeTable.Reachable.start {}).step (.union _)
    (below_pair.2 ⟨(TypeTable.sound_withLimits {}).below_fixed rfl,
      (TypeTable.sound_withLimits {}).below_fixed rfl⟩)

theorem nullableTable_eq : nullableTable =
    { ids := nullableTable.ids, types := List.toArray (TypeTable.fixed ++ [.union [.null, .true]]) } := by
  cbv

theorem nullable_eq : nullable = ⟨13⟩ := by
  cbv

theorem below_nullable : nullableTable.Has nullable := by
  rw [nullableTable_eq, nullable_eq]
  exact Nat.lt_succ_self 13

/-- The number is that of a plain type. -/
theorem plain_nullable : nullableTable.Plain nullable := by
  have members : nullableTable.unionMembers nullable = [.null, .true] := by
    rw [nullableTable_eq, nullable_eq]
    rfl
  constructor
  · unfold TypeTable.Still
    rw [members, nullableTable_eq]
    decide
  · rw [members, nullableTable_eq]
    intro _ d hd ms
    rcases mem_cons.1 hd with rfl | hd
    · nofun
    · rw [mem_singleton.1 hd]
      nofun

set_option maxRecDepth 1024 in
/-- Where `null` is assigned to `null | true`, less is left than where all of it is. -/
theorem narrowByAssignment_mono_null :
    let x := narrowByAssignment nullable .null nullableTable
    let y := narrowByAssignment nullable nullable x.2
    let less := isSubtype x.1 y.1 y.2
    y.2.homes nullable .null ⊆ y.2.homes nullable nullable ∧ less.2.depthError = none ∧ less.1 = true := by
  have runs : narrowByAssignment nullable .null nullableTable = (.null, nullableTable) ∧
      narrowByAssignment nullable nullable nullableTable = (nullable, nullableTable) ∧
      nullableTable.homes nullable .null = [some .null] ∧
      nullableTable.homes nullable nullable = [some .null, some .true] ∧
      (isSubtype .null nullable nullableTable).2.depthError = none := by
    rw [nullableTable_eq]
    cbv
  obtain ⟨first, second, homes, all, untripped⟩ := runs
  have mono := reachable_nullableTable.narrowByAssignment_mono (D := nullable) (A := .null) (B := nullable)
    below_nullable plain_nullable (reachable_nullableTable.sound.below_fixed rfl) below_nullable
  simp only [first, second, homes, all] at mono ⊢
  exact ⟨by simp, untripped, mono (by simp) untripped⟩

set_option maxRecDepth 1024 in
/-- A value of type `any` is at home in the first member, and so leaves less than others. -/
theorem any_leaves_first :
    let x := narrowByAssignment nullable .any nullableTable
    let y := narrowByAssignment nullable .true x.2
    let less := isSubtype x.1 y.1 y.2
    nullableTable.Reachable ∧ (isSubtype .any .true y.2).1 = true ∧
      (isSubtype .any nullable y.2).1 = true ∧ (isSubtype .true nullable y.2).1 = true ∧ less.1 = false ∧
      less.2.depthError = none := by
  have runs : narrowByAssignment nullable .any nullableTable = (.null, nullableTable) ∧
      narrowByAssignment nullable .true nullableTable = (.true, nullableTable) ∧
      (isSubtype .any .true nullableTable).1 = true ∧
      (isSubtype .any nullable nullableTable).1 = true ∧
      (isSubtype .true nullable nullableTable).1 = true ∧
      (isSubtype .null .true nullableTable).1 = false ∧
      (isSubtype .null .true nullableTable).2.depthError = none := by
    rw [nullableTable_eq]
    cbv
  obtain ⟨first, second, rest⟩ := runs
  simp only [first, second]
  exact ⟨reachable_nullableTable, rest⟩

end GradualTyping
