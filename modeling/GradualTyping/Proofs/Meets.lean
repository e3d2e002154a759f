/-
# What an intersection is made of

`intersectStep` takes one of few steps: something absorbs the list, or it is
distributed over its first union, or its parts are joined.  `MeetStep` says which,
with a relation in the place of the intersections that a step makes in turn: those
of the alternatives of a union, and those of the types of fields that two objects
share.

`Meeting.step` is the only statement about `intersectStep` that opens it.  It is about
two ways to make the intersections in turn: if they do the same, so does the step, and
its answer is found again on every later table.  A property of intersections follows
from it by induction on the steps (`keeps_intersectionOf`).
-/

import GradualTyping.Proofs.Sound.Intersections

namespace GradualTyping

open TypeTable List

/-! ### Merged objects -/

section Merging

variable (P : List TypeId → TypeId → Prop)
variable {a c : ObjectShape}
variable {b : ObjectShape} {os : List ObjectShape}

/-- The type of a field that two objects share. -/
def FieldMeet (x y r : TypeId) : Prop :=
  x = y ∧ r = x ∨ x ≠ y ∧ P [x, y] r

/-- What a field becomes when an object is merged with `b`. -/
def SharedField (b : ObjectShape) (p p' : Property) : Prop :=
  match b.property? p.name with
  | some q => ∃ type, FieldMeet P p.type q.type type ∧
      p' = ⟨p.name, type, p.optional && q.optional, p.readonly || q.readonly⟩
  | none => p' = p

/-- What the open fields of two objects become. -/
def IndexMeet : (a b c : Option TypeId) → Prop
  | some x, some y, c => ∃ i, FieldMeet P x y i ∧ c = some i
  | a, b, c => c = a.or b

/-- An object that two objects are merged to. -/
structure MergedPair (a b c : ObjectShape) : Prop where
  properties : ∃ shared : List Property,
    ((∀ p ∈ a.properties, ∃ p' ∈ shared, SharedField P b p p') ∧
      ∀ p' ∈ shared, ∃ p ∈ a.properties, SharedField P b p p') ∧
    c.properties =
      sortProperties (shared ++ b.properties.filter fun q => (a.property? q.name).isNone)
  index : IndexMeet P a.index b.index c.index

/-- An object that an object is merged to with others, from the left. -/
inductive MergedAll : ObjectShape → List ObjectShape → ObjectShape → Prop
  | nil {o} : MergedAll o [] o
  | cons {a b c o os} : MergedPair P a b o → MergedAll o os c → MergedAll a (b :: os) c

variable {P} {P' : List TypeId → TypeId → Prop} (hP : ∀ ms r, P ms r → P' ms r)

include hP

theorem FieldMeet.mono {x y r : TypeId} (h : FieldMeet P x y r) : FieldMeet P' x y r :=
  h.imp_right fun h => ⟨h.1, hP _ _ h.2⟩

theorem SharedField.mono {p p' : Property} (h : SharedField P b p p') : SharedField P' b p p' := by
  unfold SharedField at h ⊢
  split at h
  · obtain ⟨type, hmeet, rfl⟩ := h
    exact ⟨type, hmeet.mono hP, rfl⟩
  · exact h

theorem IndexMeet.mono {a b c : Option TypeId} (h : IndexMeet P a b c) : IndexMeet P' a b c := by
  cases a with
  | none => exact h
  | some x =>
    cases b with
    | none => exact h
    | some y =>
      obtain ⟨i, hmeet, hc⟩ := h
      exact ⟨i, hmeet.mono hP, hc⟩

theorem MergedPair.mono (h : MergedPair P a b c) : MergedPair P' a b c := by
  obtain ⟨⟨shared, ⟨into, of⟩, hc⟩, hindex⟩ := h
  refine ⟨⟨shared, ⟨fun p hp => ?_, fun p' hp' => ?_⟩, hc⟩, hindex.mono hP⟩
  · obtain ⟨p', hp', h⟩ := into p hp
    exact ⟨p', hp', h.mono hP⟩
  · obtain ⟨p, hp, h⟩ := of p' hp'
    exact ⟨p, hp, h.mono hP⟩

theorem MergedAll.mono (h : MergedAll P a os c) : MergedAll P' a os c := by
  induction h with
  | nil => exact .nil
  | cons pair _ ih => exact .cons (pair.mono hP) ih

omit hP

/-- A property of the types of all fields of an object. -/
def ObjectShape.Fields (M : TypeId → Prop) (o : ObjectShape) : Prop :=
  (∀ p ∈ o.properties, M p.type) ∧ ∀ i, o.index = some i → M i

theorem below_property? {n : Nat} {o : ObjectShape} {name : String} (h : Below n o) :
    Below n (o.property? name) :=
  fun p hp => h.1 p (mem_of_searchName hp)

/-- The fields of a merged object are those of the two objects, or meets of them. -/
theorem MergedPair.fields {M : TypeId → Prop} (h : MergedPair P a b c)
    (meet : ∀ x y r, M x → M y → P [x, y] r → M r) (ha : a.Fields M) (hb : b.Fields M) :
    c.Fields M := by
  have field : ∀ {x y r}, M x → M y → FieldMeet P x y r → M r := by
    rintro x y r hx hy (⟨-, rfl⟩ | ⟨-, h⟩)
    · exact hx
    · exact meet x y r hx hy h
  obtain ⟨⟨shared, ⟨-, of⟩, hprops⟩, index⟩ := h
  refine ⟨fun p' hp' => ?_, fun i hi => ?_⟩
  · rw [hprops] at hp'
    rcases mem_append.1 (mem_of_mem_sortProperties hp') with hp' | hp'
    · obtain ⟨p, hp, hfield⟩ := of p' hp'
      unfold SharedField at hfield
      split at hfield
      · next q hq =>
        obtain ⟨type, hmeet, rfl⟩ := hfield
        exact field (ha.1 p hp) (hb.1 q (mem_of_searchName hq)) hmeet
      · exact hfield ▸ ha.1 p hp
    · exact hb.1 p' (mem_filter.1 hp').1
  · unfold IndexMeet at index
    split at index
    · next x y hx hy =>
      obtain ⟨j, hmeet, hj⟩ := index
      cases hj.symm.trans hi
      exact field (ha.2 x hx) (hb.2 y hy) hmeet
    · rcases Option.or_eq_some_iff.1 (index.symm.trans hi) with hi | ⟨-, hi⟩
      · exact ha.2 i hi
      · exact hb.2 i hi

theorem MergedAll.fields {M : TypeId → Prop}
    (h : MergedAll P a os c) (meet : ∀ x y r, M x → M y → P [x, y] r → M r) (ha : a.Fields M)
    (hos : ∀ b ∈ os, b.Fields M) : c.Fields M := by
  induction h with
  | nil => exact ha
  | cons pair _ ih =>
    obtain ⟨hb, hos⟩ := forall_mem_cons.1 hos
    exact ih (pair.fields meet ha hb) hos

theorem MergedAll.namesIncrease
    (h : MergedAll P a os c) (ha : NamesIncrease a.properties) : NamesIncrease c.properties := by
  induction h with
  | nil => exact ha
  | cons pair _ ih =>
    obtain ⟨⟨shared, -, hprops⟩, -⟩ := pair
    exact ih (hprops ▸ namesIncrease_sortProperties)

end Merging

namespace TypeTable

variable {t : TypeTable}
variable {os : List ObjectShape} {object : Option TypeId}

/-- The object among the parts of an intersection. -/
def Merged (t : TypeTable) (P : List TypeId → TypeId → Prop) :
    List ObjectShape → Option TypeId → Prop
  | [], object => object = none
  | o :: os, object => ∃ id shape, object = some id ∧ t.resolve id = .object shape ∧
      MergedAll P o os shape

theorem Merged.mono {P P' : List TypeId → TypeId → Prop} (hP : ∀ ms r, P ms r → P' ms r)
    (h : t.Merged P os object) : t.Merged P' os object := by
  cases os with
  | nil => exact h
  | cons o os =>
    obtain ⟨id, shape, hid, hshape, hall⟩ := h
    exact ⟨id, shape, hid, hshape, hall.mono hP⟩

theorem Merged.shape {P : List TypeId → TypeId → Prop}
    (h : t.Merged P os object) {id : TypeId} (hid : object = some id) :
    ∃ shape, t.resolve id = .object shape := by
  cases os with
  | nil =>
    rw [show object = none from h] at hid
    cases hid
  | cons o os =>
    obtain ⟨id', shape, hid', hshape, -⟩ := h
    exact ⟨shape, Option.some.inj (hid'.symm.trans hid) ▸ hshape⟩

theorem Merged.isObject {P : List TypeId → TypeId → Prop}
    (h : t.Merged P os object) {id : TypeId} (hid : object = some id) :
    (t.resolve id).isObject := by
  obtain ⟨shape, hshape⟩ := h.shape hid
  rw [hshape]
  rfl

/-- A type that is made of parts, in order, that are left beside each other. -/
def IsIntersection (t : TypeTable) (ms : List TypeId) (v : TypeId) : Prop :=
  ms = [] ∧ v = .unknown ∨ ms = [v] ∨ t.resolve v = .intersection ms

/-- What one step makes of a list of types of the table `t`; the result is read on `t'`. -/
inductive MeetStep (t t' : TypeTable) (P : List TypeId → TypeId → Prop) (ms : List TypeId) :
    TypeId → Prop
  | never : .never ∈ t.flattenIntersection ms → MeetStep t t' P ms .never
  | any : .any ∈ t.flattenIntersection ms → MeetStep t t' P ms .any
  | unknown : t.flattenIntersection ms = [] → MeetStep t t' P ms .unknown
  | one {v} : (∀ m, m ∈ t.flattenIntersection ms ↔ m = v) → MeetStep t t' P ms v
  | distribute {alternatives rest results v} :
      t.splitUnion? (sortIds (t.flattenIntersection ms)) = some (alternatives, rest) →
      alternatives.length ≤ distributionLimit →
      ((∀ alt ∈ alternatives, ∃ r ∈ results, P (rest ++ [alt]) r) ∧
        ∀ r ∈ results, ∃ alt ∈ alternatives, P (rest ++ [alt]) r) →
      t'.IsUnion results v → MeetStep t t' P ms v
  | disjoint : t.parts? {} (sortIds (t.flattenIntersection ms)) = none → MeetStep t t' P ms .never
  | empty {parts} : t.parts? {} (sortIds (t.flattenIntersection ms)) = some parts →
      parts.isEmpty t = true → MeetStep t t' P ms .never
  | joined {parts object v} : t.parts? {} (sortIds (t.flattenIntersection ms)) = some parts →
      t'.Merged P parts.objects object →
      t'.IsIntersection (sortIds (parts.others ++ parts.atom.toList ++ object.toList)) v →
      MeetStep t t' P ms v

/-- **What a step makes has a property** if the types that it is made of have one that passes on. -/
theorem MeetStep.inherits {t' : TypeTable} {P : List TypeId → TypeId → Prop} {M G : TypeId → Prop}
    {ms : List TypeId} {v : TypeId} (flat : ∀ m ∈ t.flattenIntersection ms, M m)
    (whole : ∀ m, M m → G m) (never : G .never) (any : G .any) (unknown : G .unknown)
    (union : ∀ u alternatives rest results, u ∈ t.flattenIntersection ms →
      t.resolve u = .union alternatives → rest ⊆ t.flattenIntersection ms →
      (∀ r ∈ results, ∃ alt ∈ alternatives, P (rest ++ [alt]) r) → t'.IsUnion results v → G v)
    (object : ∀ os id, (∀ o ∈ os, ∃ m ∈ t.flattenIntersection ms, t.resolve m = .object o) →
      t'.Merged P os (some id) → M id)
    (node : ∀ members, (∀ m ∈ members, M m) → t'.resolve v = .intersection members → G v)
    (step : t.MeetStep t' P ms v) : G v := by
  cases step with
  | never | disjoint | empty => exact never
  | any => exact any
  | unknown => exact unknown
  | one hv => exact whole v (flat v ((hv v).2 rfl))
  | distribute hsplit _ hresults hunion =>
    obtain ⟨u, hu, hnode, hrest⟩ := mem_of_splitUnion? hsplit
    exact union u _ _ _ (mem_sortIds.1 hu) hnode (fun m hm => mem_sortIds.1 (hrest hm)) hresults.2
      hunion
  | @joined parts made _ hparts hobject hjoined =>
    have hfrom : parts.From t (t.flattenIntersection ms) :=
      parts?_from hparts ⟨by simp, by simp, by simp⟩ fun m hm => mem_sortIds.1 hm
    have members : ∀ m ∈ sortIds (parts.others ++ parts.atom.toList ++ made.toList), M m := by
      intro m hm
      have hm := mem_sortIds.1 hm
      simp only [mem_append, Option.mem_toList] at hm
      rcases hm with (hm | hm) | hm
      · exact flat m (hfrom.others m hm).1
      · exact flat m (hfrom.atom m hm).1
      · exact object parts.objects m hfrom.objects (hm ▸ hobject)
    rcases hjoined with ⟨-, rfl⟩ | hone | hnode
    · exact unknown
    · exact whole v (members v (hone ▸ .head _))
    · exact node _ members hnode

/-- **A step passes on a property of types**, if the meets of fields pass on one of their types. -/
theorem MeetStep.passes {t' : TypeTable} {P : List TypeId → TypeId → Prop}
    {M N : TypeId → Prop} {ms : List TypeId} {v : TypeId} (s : t.Sound) (g : t.Grows t')
    (hms : t.Has ms) (never : M .never) (any : M .any) (unknown : M .unknown)
    (members : ∀ {m l}, M m → t'.resolve m = .union l ∨ t'.resolve m = .intersection l →
      ∀ x ∈ l, M x) (fields : ∀ {m o}, M m → t'.resolve m = .object o → o.Fields N)
    (object : ∀ {m o m' o'}, M m → t'.resolve m = .object o → t'.resolve m' = .object o' →
      o'.Fields N → M m') (union : ∀ {xs u}, t'.IsUnion xs u → (∀ x ∈ xs, M x) → M u)
    (intersection : ∀ {l u}, t'.resolve u = .intersection l → (∀ m ∈ l, M m) → M u)
    (made : ∀ {ms r}, P ms r → (∀ m ∈ ms, M m) → M r)
    (meets : ∀ x y r, N x → N y → P [x, y] r → N r) (h : ∀ m ∈ ms, M m)
    (step : t.MeetStep t' P ms v) : M v := by
  have flat : ∀ m ∈ t.flattenIntersection ms, M m ∧ t'.resolve m = t.resolve m := by
    intro m hm
    refine ⟨?_, g.resolve (s.below_flattenIntersection hms m hm)⟩
    rcases mem_flattenIntersection.1 hm with ⟨x, hx, parts, hparts, hm⟩ | ⟨hm, -⟩
    · exact members (h x hx) (.inr ((g.resolve (hms x hx)).trans hparts)) m hm
    · exact h m hm
  refine step.inherits (fun m hm => (flat m hm).1) (fun _ h => h) never any unknown ?_ ?_
    fun _ h hnode => intersection hnode h
  · intro u alternatives rest results hu hnode hrest hresults hunion
    obtain ⟨hM, same⟩ := flat u hu
    refine union hunion fun r hr => ?_
    obtain ⟨alt, halt, hmeet⟩ := hresults r hr
    refine made hmeet fun m hm => ?_
    rcases mem_append.1 hm with hm | hm
    · exact (flat m (hrest hm)).1
    · exact mem_singleton.1 hm ▸ members hM (.inl (same.trans hnode)) alt halt
  · intro os id hos merged
    have objects : ∀ o ∈ os, ∃ m, M m ∧ t'.resolve m = .object o := by
      intro o ho
      obtain ⟨m, hm, hnode⟩ := hos o ho
      exact ⟨m, (flat m hm).1, (flat m hm).2.trans hnode⟩
    cases os with
    | nil => cases merged
    | cons o os =>
      obtain ⟨id', shape, hid, hshape, merged⟩ := merged
      cases hid
      obtain ⟨⟨m, hm, ho⟩, hos⟩ := forall_mem_cons.1 objects
      refine object hm ho hshape (merged.fields meets (fields hm ho) fun b hb => ?_)
      obtain ⟨m', hm', hb⟩ := hos b hb
      exact fields hm' hb

end TypeTable

/-! ### The triples -/

section Triples

variable {start t : TypeTable} {P : TypeTable → List TypeId → TypeId → Prop}
  {G : TypeTable → TypeId → Prop} {meet meet' : List TypeId → TableM TypeId} {ms : List TypeId}

/-- A relation that later tables keep. -/
def Lasting (P : TypeTable → List TypeId → TypeId → Prop) : Prop :=
  ∀ (t t' : TypeTable) (ms : List TypeId) (r : TypeId), t.Sound → t.Runs t' → P t ms r → P t' ms r

/-- What is made of types of the table that all have a property has it too. -/
def Passes (M : TypeTable → TypeId → Prop) (t : TypeTable) (ms : List TypeId) (v : TypeId) : Prop :=
  Below t.size ms ∧ Below t.size v ∧ ((∀ m ∈ ms, M t m) → M t v)

theorem lasting_passes {M : TypeTable → TypeId → Prop} (same : ∀ {t t' : TypeTable} {id : TypeId},
      t.Sound → t.Grows t' → t.Has id → (M t' id ↔ M t id)) : Lasting (Passes M) := by
  rintro t t' ms v s r ⟨hms, hv, h⟩
  refine ⟨r hms, r hv, fun h' => (same s r hv).2 (h fun m hm => ?_)⟩
  exact (same s r (hms m hm)).1 (h' m hm)

/-- Two ways to intersect types that do the same, from a table on, where `G` holds of the types:
what is made of them is related to them, and `G` holds of it. -/
structure Meeting (P : TypeTable → List TypeId → TypeId → Prop) (G : TypeTable → TypeId → Prop)
    (t : TypeTable) (meet meet' : List TypeId → TableM TypeId) : Prop where
  lasting : Lasting P
  within : ∀ {t ms r}, P t ms r → Below t.size r
  runs : ∀ {t t' id}, t.Sound → t.Runs t' → G t id → G t' id
  below : ∀ {t id}, G t id → Below t.size id
  gives : ∀ {t x y r}, G t x → G t y → P t [x, y] r → G t r
  meets : ∀ {x y t'}, t'.Sound → t.Runs t' → G t' x → G t' y →
    MatchesAs (fun t'' r => P t'' [x, y] r) t' (meet [x, y]) (meet' [x, y])

namespace Meeting

variable (h : Meeting P G t meet meet') (s : t.Sound)

include h

theorem later {t' : TypeTable} (r : t.Runs t') : Meeting P G t' meet meet' :=
  { h with meets := fun s' r' => h.meets s' (r.trans r') }

include s

theorem fields {t' : TypeTable} (r : t.Runs t') {o : ObjectShape} (ho : o.Fields (G t)) :
    o.Fields (G t') :=
  ⟨fun p hp => h.runs s r (ho.1 p hp), fun i hi => h.runs s r (ho.2 i hi)⟩

theorem mergeObjects {a b : ObjectShape} (ha : a.Fields (G t)) (hb : b.Fields (G t)) :
    MatchesAs (fun t' o => MergedPair (P t') a b o) t
      (GradualTyping.mergeObjects (fun x y => meet [x, y]) a b)
      (GradualTyping.mergeObjects (fun x y => meet' [x, y]) a b) := by
  have distinct : ∀ {x y t'}, t'.Sound → t.Runs t' → G t x → G t y →
      MatchesAs (fun t'' r => FieldMeet (P t'') x y r) t' (if x = y then pure x else meet [x, y])
        (if x = y then pure x else meet' [x, y]) := by
    intro x y t' s' r' hx hy
    split
    · next hxy => exact .pure s' (.inl ⟨hxy, rfl⟩)
    · next hxy =>
      exact (h.meets s' r' (h.runs s r' hx) (h.runs s r' hy)).mono fun _ _ _ _ hr => .inr ⟨hxy, hr⟩
  have later : ∀ {t' t'' : TypeTable}, t'.Sound → t'.Runs t'' → ∀ ms r, P t' ms r → P t'' ms r :=
    fun s' r' ms r hr => h.lasting _ _ ms r s' r' hr
  unfold GradualTyping.mergeObjects
  refine MatchesAs.bind (.mapM_rel (S := fun t' p p' => SharedField (P t') b p p') s
    (fun s' r' hp => hp.mono (later s' r')) fun p hp t1 s1 r1 => ?_) fun t1 shared s1 r1 hshared => ?_
  · split
    · next q hq =>
      refine (distinct s1 r1 (ha.1 p hp) (hb.1 q (mem_of_searchName hq))).bind
        fun t2 type s2 _ ht => .pure s2 ?_
      unfold SharedField
      rw [hq]
      exact ⟨type, ht, rfl⟩
    · next hq =>
      refine .pure s1 ?_
      unfold SharedField
      rw [hq]
  · have finish : ∀ {t2 index}, t1.Runs t2 → IndexMeet (P t2) a.index b.index index →
        MergedPair (P t2) a b ⟨sortProperties (shared ++ b.properties.filter fun q =>
          (a.property? q.name).isNone), index⟩ := by
      intro t2 index r2 hindex
      refine ⟨⟨shared, ⟨fun p hp => ?_, fun p' hp' => ?_⟩, rfl⟩, hindex⟩
      · obtain ⟨p', hp', hp⟩ := hshared.1 p hp
        exact ⟨p', hp', hp.mono (later s1 r2)⟩
      · obtain ⟨p, hp, hp'⟩ := hshared.2 p' hp'
        exact ⟨p, hp, hp'.mono (later s1 r2)⟩
    dsimp only
    split
    · next x y hx hy =>
      rw [← bind_pure_comp, ← bind_pure_comp, bind_assoc, bind_assoc]
      refine (distinct s1 r1 (ha.2 x hx) (hb.2 y hy)).bind fun t2 i s2 r2 hi => ?_
      rw [pure_bind]
      refine .pure s2 (finish r2 ?_)
      rw [hx, hy]
      exact ⟨i, hi, rfl⟩
    · next hne =>
      rw [pure_bind]
      refine .pure s1 (finish (.refl t1) ?_)
      cases ha : a.index with
      | none => exact rfl
      | some x =>
        cases hb : b.index with
        | none => exact rfl
        | some y => exact absurd hb (hne x y ha)

theorem mergeAll {os : List ObjectShape}
    (hos : ∀ o ∈ os, o.Fields (G t) ∧ NamesIncrease o.properties) :
    MatchesAs (fun t' object => t'.Has object ∧
        ∀ F, t'.Grows F → F.Merged (P t') os object) t
      (GradualTyping.mergeAll (fun x y => meet [x, y]) os)
      (GradualTyping.mergeAll (fun x y => meet' [x, y]) os) := by
  have fold : ∀ {t' os a}, t'.Sound → t.Runs t' → a.Fields (G t') → (∀ b ∈ os, b.Fields (G t')) →
      MatchesAs (fun t'' o => MergedAll (P t'') a os o ∧ o.Fields (G t'')) t'
        (os.foldlM (GradualTyping.mergeObjects fun x y => meet [x, y]) a)
        (os.foldlM (GradualTyping.mergeObjects fun x y => meet' [x, y]) a) := by
    intro t' os a s' r' ha hos
    induction os generalizing t' a with
    | nil => exact .pure s' ⟨.nil, ha⟩
    | cons b os ih =>
      obtain ⟨hb, hos⟩ := forall_mem_cons.1 hos
      rw [foldlM_cons, foldlM_cons]
      have h' := h.later r'
      refine (h'.mergeObjects s' ha hb).bind fun t1 o s1 r1 ho => ?_
      have fields := ho.fields (fun _ _ _ => h.gives) (h'.fields s' r1 ha) (h'.fields s' r1 hb)
      refine (ih s1 (r'.trans r1) fields fun b hb => h'.fields s' r1 (hos b hb)).mono
        fun t2 o' _ r2 ho' => ⟨.cons (ho.mono fun _ _ hr => ?_) ho'.1, ho'.2⟩
      exact h.lasting _ _ _ _ s1 r2 hr
  cases os with
  | nil => exact .pure s ⟨below_none, fun _ _ => rfl⟩
  | cons o os =>
    obtain ⟨ho, hos⟩ := forall_mem_cons.1 hos
    refine (fold s (.refl t) ho.1 fun b hb => (hos b hb).1).bind fun t1 merged s1 r1 hmerged => ?_
    have below : t1.Has (Ty.object merged) :=
      ⟨fun p hp => h.below (hmerged.2.1 p hp), fun i hi => h.below (hmerged.2.2 i hi)⟩
    have node : MatchesAs _ t1 (intern (.object merged)) _ :=
      .self (recalls_intern s1 below (hmerged.1.namesIncrease ho.2) rfl)
    refine node.bind fun t2 id s2 r2 hid => .pure s2 ⟨below_some.2 (below_of_get? hid), fun F g => ?_⟩
    exact ⟨id, merged, rfl, resolve_of_get? (g.get? hid),
      hmerged.1.mono fun _ _ hr => h.lasting _ _ _ _ s1 r2 hr⟩

/-- The parts of a list, when there is nothing to distribute over. -/
theorem joinParts (hflat : t.Has (sortIds (t.flattenIntersection ms)))
    (hplain : t.Unabsorbed (sortIds (t.flattenIntersection ms)))
    (hunions : t.Undistributed (sortIds (t.flattenIntersection ms)))
    (hfields : ∀ m ∈ t.flattenIntersection ms, ∀ o, t.resolve m = .object o → o.Fields (G t)) :
    MatchesAs (fun t' v => t'.Has v ∧ t.MeetStep t' (P t') ms v) t
      (intersectStep.joinParts meet t (sortIds (t.flattenIntersection ms)))
      (intersectStep.joinParts meet' t (sortIds (t.flattenIntersection ms))) := by
  unfold intersectStep.joinParts
  cases hparts : t.parts? {} (sortIds (t.flattenIntersection ms)) with
  | none => exact .pure s ⟨s.below_never, .disjoint hparts⟩
  | some parts =>
    dsimp only
    split
    · next hempty => exact .pure s ⟨s.below_never, .empty hparts hempty⟩
    next hempty =>
    have hobjects : ∀ o ∈ parts.objects, o.Fields (G t) ∧ NamesIncrease o.properties := by
      intro o ho
      obtain ⟨m, hm, hnode⟩ := (from_parts? hparts).objects o ho
      exact ⟨hfields m (mem_sortIds.1 hm) o hnode, s.canonical_node hnode⟩
    refine (h.mergeAll s hobjects).bind fun t1 object s1 r1 hobject => ?_
    have merged := hobject.2 t1 (.refl t1)
    obtain ⟨hms, hcanonical⟩ := joinedParts r1 hflat hplain hunions hparts hempty
      ⟨hobject.1, fun m hm => merged.isObject hm, fun hnil => by rw [hnil] at merged; exact merged⟩
    split
    · next hnil => exact .pure s1 ⟨s1.below_unknown, .joined hparts merged (.inl ⟨hnil, rfl⟩)⟩
    · next m hm =>
      exact .pure s1 ⟨hms m (hm ▸ .head _), .joined hparts merged (.inr (.inl hm))⟩
    · next hnil hone =>
      refine MatchesAs.mono (.self (recalls_intern s1 hms (hcanonical (two_le_length hnil hone)) rfl))
        fun t2 id _ r2 hid => ⟨below_of_get? hid, ?_⟩
      refine .joined hparts ((hobject.2 t2 r2).mono fun _ _ hr => ?_)
        (.inr (.inr (resolve_of_get? hid)))
      exact h.lasting _ _ _ _ s1 r2 hr

/-- **What one step makes of a list of types.** -/
theorem step (hms : t.Has ms)
    (hfields : ∀ m ∈ t.flattenIntersection ms, ∀ o, t.resolve m = .object o → o.Fields (G t))
    (distribute : ∀ {alternatives rest alt t'}, t.Unabsorbed (sortIds (t.flattenIntersection ms)) →
      t.splitUnion? (sortIds (t.flattenIntersection ms)) = some (alternatives, rest) →
      alternatives.length ≤ distributionLimit → alt ∈ alternatives → t'.Sound → t.Runs t' →
      MatchesAs (fun t'' r => P t'' (rest ++ [alt]) r) t' (meet (rest ++ [alt]))
        (meet' (rest ++ [alt]))) :
    MatchesAs (fun t' v => t'.Has v ∧ t.MeetStep t' (P t') ms v) t (intersectStep meet ms)
      (intersectStep meet' ms) := by
  have hsorted := below_sortIds (s.below_flattenIntersection hms)
  unfold intersectStep
  refine .get (fun t' p => ?_) ?_
  · have agree := p.agree s
    dsimp only
    rw [agree.flattenIntersection hms]
    generalize sortIds (t.flattenIntersection ms) = flat at hsorted
    rcases flat with _ | ⟨m, _ | ⟨m', rest⟩⟩
    · rfl
    · rfl
    · simp only [agree.splitUnion? hsorted, agree.joinParts hsorted]
  dsimp only
  split
  · next hnever => exact .pure s ⟨s.below_never, .never hnever⟩
  next hnever =>
  split
  · next hany => exact .pure s ⟨s.below_fixed rfl, .any hany⟩
  next hany =>
  have hplain := s.flat_plain hms hnever hany
  split
  · next hnil =>
    refine .pure s ⟨s.below_unknown, .unknown (eq_nil_iff_forall_not_mem.2 fun m hm => ?_)⟩
    exact absurd (hnil ▸ mem_sortIds.2 hm) not_mem_nil
  · next m hm =>
    refine .pure s ⟨hsorted m (hm ▸ .head _), .one fun x => ?_⟩
    rw [← mem_sortIds, hm, mem_singleton]
  · split
    · next alternatives rest hsplit =>
      split
      · next short =>
        refine MatchesAs.bind (.mapM_rel (S := fun t' alt r => P t' (rest ++ [alt]) r) s
          (fun s' r' hr => h.lasting _ _ _ _ s' r' hr)
          fun alt halt t1 s1 r1 => distribute hplain hsplit short halt s1 r1)
          fun t1 results s1 r1 hresults => ?_
        have below : t1.Has results := fun r hr => by
          obtain ⟨alt, -, hrel⟩ := hresults.2 r hr
          exact h.within hrel
        have union : Leaves Runs t1 (unionOf results) _ := stable_unionOf s1 below
        refine .self ⟨union.sound, union.related, ⟨union.post.1, .distribute hsplit short
          ⟨fun alt halt => ?_, fun r hr => ?_⟩ (s1.isUnion_unionOf below (.refl _))⟩, union.post.2⟩
        · obtain ⟨r, hr, hrel⟩ := hresults.1 alt halt
          exact ⟨r, hr, h.lasting _ _ _ _ s1 union.related hrel⟩
        · obtain ⟨alt, halt, hrel⟩ := hresults.2 r hr
          exact ⟨alt, halt, h.lasting _ _ _ _ s1 union.related hrel⟩
      · next hlen =>
        exact h.joinParts s hsorted hplain
          (undistributed_of_some increasing_sortIds hsplit (Nat.not_le.1 hlen)) hfields
    · next hsplit => exact h.joinParts s hsorted hplain (undistributed_of_none hsplit) hfields

end Meeting

/-- What a step makes of types of the table, if it makes intersections of such types in turn. -/
theorem matches_meetStep (lasting : Lasting P) (within : ∀ {t ms r}, P t ms r → t.Has r)
    (s : t.Sound) (hms : t.Has ms) (hmeet : ∀ {t' ms}, t'.Sound → t.Runs t' → t'.Has ms →
      MatchesAs (fun t'' r => P t'' ms r) t' (meet ms) (meet' ms)) :
    MatchesAs (fun t' v => t'.Has v ∧ t.MeetStep t' (P t') ms v) t (intersectStep meet ms)
      (intersectStep meet' ms) := by
  have meeting : Meeting P (fun t id => t.Has id) t meet meet' :=
    ⟨lasting, within, fun _ r => r.below, id, fun _ _ => within,
      fun s' r' hx hy => hmeet s' r' (below_pair.2 ⟨hx, hy⟩)⟩
  refine meeting.step s hms (fun m _ o ho => s.below_node ho) fun _ hsplit _ halt s' r' => ?_
  obtain ⟨u, -, hu, hrest⟩ := mem_of_splitUnion? hsplit
  refine hmeet s' r' (r' (below_append.2 ⟨?_, below_singleton.2 ?_⟩))
  · exact (below_sortIds (s.below_flattenIntersection hms)).subset hrest
  · exact s.below_node hu _ halt

/-- **What each step passes on, all intersections have.** -/
theorem matches_intersectWithin (lasting : Lasting P) (within : ∀ {t ms r}, P t ms r → t.Has r)
    (bottom : ∀ {t ms}, start.Runs t → t.Sound → t.Has ms → P t ms .never)
    (step : ∀ {t t' ms v}, start.Runs t → t.Sound → t.Has ms → t.Runs t' → t'.Sound →
      t'.Has v → t.MeetStep t' (P t') ms v → P t' ms v)
    {fuel : Nat} (r : start.Runs t) (s : t.Sound) (hms : t.Has ms) :
    MatchesAs (fun t' v => P t' ms v) t (intersectWithin fuel ms) (intersectWithin fuel ms) := by
  induction fuel generalizing t ms with
  | zero =>
    unfold intersectWithin
    exact .pure s (bottom r s hms)
  | succ fuel ih =>
    unfold intersectWithin
    exact (matches_meetStep lasting within s hms fun s' r' => ih (r.trans r') s').mono
      fun t' v s' r' hv => step r s hms r' s' hv.1 hv.2

theorem keeps_intersectionOf (lasting : Lasting P) (within : ∀ {t ms r}, P t ms r → t.Has r)
    (bottom : ∀ {t' ms}, t.Runs t' → t'.Sound → t'.Has ms → P t' ms .never)
    (step : ∀ {t1 t2 ms v}, t.Runs t1 → t1.Sound → t1.Has ms → t1.Runs t2 → t2.Sound →
      t2.Has v → t1.MeetStep t2 (P t2) ms v → P t2 ms v) (s : t.Sound) (hms : t.Has ms) :
    Keeps Runs t (intersectionOf ms) fun t' v => P t' ms v :=
  .read rfl ((matches_intersectWithin lasting within bottom step (.refl t) s hms).1.mono
    fun _ _ _ _ h => h.1)

/-- An intersection ends with a step. -/
theorem keeps_intersectionOf_step (s : t.Sound) (hms : t.Has ms) :
    Keeps Runs t (intersectionOf ms) fun t' v =>
      t'.Has v ∧ t.MeetStep t' (fun _ r => t'.Has r) ms v := by
  have lasting : Lasting fun t _ r => t.Has r := fun _ _ _ _ _ r h => r h
  obtain ⟨fuel, hfuel⟩ : ∃ fuel, (t.size + ms.length + 2) * (t.size + ms.length + 2) = fuel + 1 :=
    ⟨_, rfl⟩
  have made : MatchesAs _ t (intersectWithin (fuel + 1) ms) (intersectWithin (fuel + 1) ms) :=
    matches_meetStep lasting id s hms fun s' r' =>
      matches_intersectWithin lasting id (fun _ s _ => s.below_never) (fun _ _ _ _ _ h _ => h)
        r' s'
  rw [← hfuel] at made
  exact .read rfl (made.1.mono fun _ _ _ _ h => h.1)

theorem safe_intersectionOf (s : t.Sound) (hms : t.Has ms) : Safe t (intersectionOf ms) :=
  (keeps_intersectionOf_step s hms).mono fun _ _ _ _ h => h.1

end Triples

end GradualTyping
