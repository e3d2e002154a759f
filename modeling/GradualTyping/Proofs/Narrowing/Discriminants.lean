/-
# Which records the test of a field keeps

A record belongs to an object type if it has a value of its type for each field; a field that is
optional may be absent, and what is read of an absent field is `undefined`.  Narrowing a union of
object types by a test of one field against a constant filters the alternatives: where the test
passes by comparison of the constant with the type of the field, where it fails by the identity of
the two types.

A record is kept where the test passes if its alternative declares the field with a type that has
what is read, and where the test fails exactly if its alternative does not declare the field with
the constant as its type (`Reachable.narrow_keeps_records`).  Neither edge asks whether the field is
optional, so that a record without the field is lost (`absent_field_lost`).
-/

import GradualTyping.Proofs.Narrowing.Ceilings
import GradualTyping.Proofs.Narrowing.Values

namespace GradualTyping

open TypeTable List Reduction Narrowing

namespace TypeTable

variable {t t' : TypeTable} {type value m : TypeId} {field : String} {xs : List TypeId}

/-! ### Alternatives that are objects -/

/-- The union of objects among the alternatives of a type has just these alternatives. -/
theorem Sound.keeps_unionOf_objects (s : t.Sound) (htype : t.Has type)
    (hxs : xs ⊆ t.unionMembers type) (objects : ∀ m ∈ xs, (t.resolve m).isObject = true) :
    Keeps Runs t (unionOf xs) fun t' u =>
      t'.Has u ∧ ∀ m, m ∈ t'.unionMembers u ↔ m ∈ xs := by
  have below : t.Has xs := (s.below_unionMembers htype).subset hxs
  have made : Leaves Runs t (unionOf xs) _ := safe_unionOf s below
  refine ⟨made.sound, made.related, made.post, fun m => ?_⟩
  rw [(s.isUnion_unionOf below (.refl _)).unionMembers made.sound,
    s.canonicalMembers_congr (s.agreeBelow made.related) below]
  have flat : t.flattenUnion xs = xs := flatMap_self fun k hk => s.unionMembers_alternative (hxs hk)
  have other {k : TypeId} (h : (t.resolve k).isObject = false) : k ∉ xs := fun hk => by
    rw [objects k hk] at h
    cases h
  have uncovered {k : TypeId} : t.Uncovered xs k ↔ k ∈ xs := by
    refine ⟨fun h => h.1.resolve_right fun b => other (by rw [s.resolve_true]; rfl) b.2.1, fun hk =>
      ⟨.inl hk, fun l hl => absurd hk (other (by rw [hl]; rfl))⟩⟩
  rw [s.mem_canonicalMembers (flat.symm ▸ other (by rw [s.resolve_any]; rfl))
    (flat.symm ▸ other (by rw [s.resolve_unknown]; rfl)), flat]
  refine ⟨fun h => uncovered.1 h.uncovered, fun h => ⟨uncovered.2 h, fun k hk same => ?_⟩⟩
  have := s.identical_alternatives (hxs (uncovered.1 hk)) (hxs h) same
  exact Nat.le_of_eq (congrArg TypeId.index this.symm)

/-- The alternatives of a type are objects, and evaluation changes no type of their field. -/
def Records (t : TypeTable) (field : String) (type : TypeId) : Prop :=
  ∀ m ∈ t.unionMembers type, ∃ o, t.resolve m = .object o ∧
    ∀ D, o.read? field = some D → needsEvaluation t D = false

theorem Records.isObject (h : t.Records field type) (hm : m ∈ t.unionMembers type) :
    (t.resolve m).isObject = true := by
  obtain ⟨o, ho, -⟩ := h m hm
  rw [ho]
  rfl

theorem Records.ground (h : t.Records field type) : t.Ground type := by
  intro m hm
  obtain ⟨o, ho, -⟩ := h m hm
  rw [ho]
  rfl

/-- **A filter of objects keeps what its rule answers**: nothing that it may not keep, and what it
has to keep unless the guard trips, or at any rate (`q`). -/
theorem Records.keeps_filterMembers (h : t.Records field type) (s : t.Sound)
    (htype : t.Has type) {keep : TypeId → TableM Bool} (q : Prop) (May Must : TypeId → Prop)
    (rule : ∀ m ∈ t.unionMembers type, ∀ t', t'.Sound → t.Runs t' →
      Keeps Runs t' (keep m) fun t'' b =>
        (b = true → May m) ∧ (q ∨ t''.Untripped → Must m → b = true)) :
    Keeps Runs t (filterMembers type keep) fun t' u => t'.Has u ∧
      (∀ m ∈ t'.unionMembers u, m ∈ t.unionMembers type ∧ May m) ∧
      (q ∨ t'.Untripped → ∀ m ∈ t.unionMembers type, Must m → m ∈ t'.unionMembers u) := by
  have one (m : TypeId) (hm : m ∈ t.unionMembers type) (t1 : TypeTable) (s1 : t1.Sound)
      (r1 : t.Runs t1) : Keeps Runs t1 (do return if ← keep m then some m else none) fun t2 kept =>
        (∀ k, kept = some k → k = m ∧ May m) ∧ (q ∨ t2.Untripped → Must m → kept = some m) := by
    refine (rule m hm t1 s1 r1).bind fun t2 b s2 _ hb => .pure s2 ⟨fun k hk => ?_, fun hq must => ?_⟩
    · obtain ⟨kept, hk⟩ := Option.ite_none_right_eq_some.1 hk
      exact ⟨(Option.some.inj hk).symm, hb.1 kept⟩
    · exact if_pos (hb.2 hq must)
  -- what has to be kept on the way has to be kept in the end: the guard does not recover
  have loop : ∀ ms ⊆ t.unionMembers type, ∀ t1, t1.Sound → t.Runs t1 →
      Keeps Runs t1 (ms.filterMapM fun m => do return if ← keep m then some m else none)
        fun t2 kept => (∀ m ∈ kept, m ∈ t.unionMembers type ∧ May m) ∧
          (q ∨ t2.Untripped → ∀ m ∈ ms, Must m → m ∈ kept) := by
    intro ms
    induction ms with
    | nil =>
      exact fun _ t1 s1 _ => .pure s1 ⟨fun _ hm => absurd hm not_mem_nil,
        fun _ _ hm => absurd hm not_mem_nil⟩
    | cons m ms ih =>
      intro hms t1 s1 r1
      obtain ⟨hm, hms⟩ := cons_subset.1 hms
      rw [filterMapM_cons]
      refine (one m hm t1 s1 r1).bind fun t2 o s2 r2 ho => ?_
      have rest := ih hms t2 s2 (r1.trans r2)
      cases o with
      | none =>
        refine rest.mono fun t3 kept _ r3 hkept => ⟨hkept.1, fun hq k hk must => ?_⟩
        rcases mem_cons.1 hk with rfl | hk
        · cases ho.2 (hq.imp_right r3.untripped) must
        · exact hkept.2 hq k hk must
      | some k =>
        obtain ⟨rfl, may⟩ := ho.1 k rfl
        refine rest.bind fun t3 kept s3 _ hkept => .pure s3 ⟨?_, fun hq l hl must => ?_⟩
        · exact forall_mem_cons.2 ⟨⟨hm, may⟩, hkept.1⟩
        · rcases mem_cons.1 hl with rfl | hl
          · exact .head _
          · exact .tail _ (hkept.2 hq l hl must)
  have whole : Leaves Runs t ((t.unionMembers type).filterMapM
      (fun m => do return if ← keep m then some m else none) >>= unionOf) fun t' u =>
        t'.Has u ∧ (∀ m ∈ t'.unionMembers u, m ∈ t.unionMembers type ∧ May m) ∧
        (q ∨ t'.Untripped → ∀ m ∈ t.unionMembers type, Must m → m ∈ t'.unionMembers u) := by
    refine (loop _ (List.Subset.refl _) t s (.refl t)).bind fun t1 kept s1 r1 hkept => ?_
    have same : t1.unionMembers type = t.unionMembers type :=
      (s.agreeBelow r1).unionMembers htype
    refine (s1.keeps_unionOf_objects (r1 htype) (fun m hm => same ▸ (hkept.1 m hm).1)
      fun m hm => ?_).mono fun t2 u _ r2 hu => ⟨hu.1, fun m hm => hkept.1 m ((hu.2 m).1 hm),
        fun hq m hm must => (hu.2 m).2 (hkept.2 (hq.imp_right r2.untripped) m hm must)⟩
    rw [r1.resolve (s.below_unionMembers htype m (hkept.1 m hm).1)]
    exact h.isObject (hkept.1 m hm).1
  obtain ⟨s1, r1, post⟩ := whole
  rw [← s.keepMembers_of_still h.ground.still] at s1 r1 post
  exact ⟨s1, r1, post⟩

/-! ### The two edges of a test of a field -/

/-- What the test of a field asks of an alternative with a field of a type that is in normal form. -/
def fieldRule (o : ObjectShape) (field : String) (value : TypeId) (negated : Bool) : TableM Bool :=
  match o.read? field with
  | none => return negated
  | some D => if negated then return D ≠ value else isSubtype value D

theorem Records.keeps_byField (h : t.Records field type) (s : t.Sound) (htype : t.Has type)
    {negated : Bool} (q : Prop) (May Must : ObjectShape → Prop)
    (rule : ∀ m ∈ t.unionMembers type, ∀ o, t.resolve m = .object o → ∀ t', t'.Sound → t.Runs t' →
      Keeps Runs t' (fieldRule o field value negated) fun t'' b =>
        (b = true → May o) ∧ (q ∨ t''.Untripped → Must o → b = true)) :
    Keeps Runs t (byField type field value negated) fun t' u => t'.Has u ∧
      (∀ m ∈ t'.unionMembers u, m ∈ t.unionMembers type ∧ ∃ o, t.resolve m = .object o ∧ May o) ∧
      (q ∨ t'.Untripped → ∀ m ∈ t.unionMembers type, ∀ o, t.resolve m = .object o → Must o →
        m ∈ t'.unionMembers u) := by
  have top : isTop type t = (false, t) := by
    rw [s.isTop_of_still h.ground.still, decide_eq_false]
    intro top
    have hmem : type ∈ t.unionMembers type := by
      rw [TypeTable.unionMembers]
      rcases top with top | top <;> rw [top] <;> exact .head _
    obtain ⟨o, ho, -⟩ := h type hmem
    rw [ho] at top
    rcases top with top | top <;> cases top
  unfold byField
  refine Tabled.Keeps.read (by rw [top]) ?_
  rw [top]
  refine (h.keeps_filterMembers s htype q (fun m => ∃ o, t.resolve m = .object o ∧ May o)
    (fun m => ∃ o, t.resolve m = .object o ∧ Must o) fun m hm t' s' r' => ?_).mono
    fun t' u _ _ hu => ⟨hu.1, hu.2.1, fun hq m hm o ho must => hu.2.2 hq m hm ⟨o, ho, must⟩⟩
  obtain ⟨o, ho, plain⟩ := h m hm
  have node : t'.resolve m = .object o :=
    (r'.resolve (s.below_unionMembers htype m hm)).trans ho
  have found : (GradualTyping.resolve m t').1.object?.bind (·.read? field) = o.read? field :=
    congrArg (fun ty : Ty => ty.object?.bind (·.read? field)) node
  have asked : Keeps Runs t' (fieldRule o field value negated) fun t'' b =>
      (b = true → ∃ o, t.resolve m = .object o ∧ May o) ∧
        (q ∨ t''.Untripped → (∃ o, t.resolve m = .object o ∧ Must o) → b = true) := by
    refine (rule m hm o ho t' s' r').mono fun t'' b _ _ hb =>
      ⟨fun yes => ⟨o, ho, hb.1 yes⟩, fun hq must => hb.2 hq ?_⟩
    obtain ⟨o', ho', must⟩ := must
    rw [ho] at ho'
    cases ho'
    exact must
  unfold fieldRule at asked
  refine Tabled.Keeps.read rfl ?_
  rw [found]
  cases hread : o.read? field with
  | none => rwa [hread] at asked
  | some D =>
    rw [hread] at asked
    have hD : t.Has D := below_read? (s.below_node ho) D hread
    have hevaluate : evaluate D t' = (D, t') :=
      s'.evaluate_of_plain (((s.agreeBelow r').needsEvaluation hD).trans (plain D hread))
    refine Tabled.Keeps.read (congrArg Prod.snd hevaluate) ?_
    rw [hevaluate]
    exact asked

/-- **Where the test fails** the alternatives are kept whose field is not exactly the value. -/
theorem Records.keeps_byField_fails (h : t.Records field type) (s : t.Sound)
    (htype : t.Has type) (value : TypeId) :
    Keeps Runs t (byField type field value true) fun t' u => t'.Has u ∧
      ∀ m, m ∈ t'.unionMembers u ↔
        m ∈ t.unionMembers type ∧ ∃ o, t.resolve m = .object o ∧ o.read? field ≠ some value := by
  refine (h.keeps_byField s htype True (fun o => o.read? field ≠ some value)
    (fun o => o.read? field ≠ some value) fun m hm o ho t' s' r' => ?_).mono
    fun t' u _ _ hu => ⟨hu.1, fun m => ⟨hu.2.1 m, fun ⟨hm, o, ho, must⟩ =>
      hu.2.2 (.inl trivial) m hm o ho must⟩⟩
  unfold fieldRule
  cases o.read? field with
  | none => exact .pure s' ⟨fun _ => nofun, fun _ _ => rfl⟩
  | some D =>
    refine .pure s' ⟨fun yes e => ?_, fun _ must => decide_eq_true fun e => must (congrArg some e)⟩
    exact of_decide_eq_true yes (Option.some.inj e)

/-! ### Comparison with the types of a field -/

section Comparison

open Subtyping

variable {heap : Heap} {v : Value} {D a d : TypeId}

theorem Ground.grows (h : t.Ground D) (s : t.Sound) (hD : t.Has D) (g : t.Grows t') :
    t'.Ground D := by
  intro m hm
  rw [(s.agreeBelow g).unionMembers hD] at hm
  rw [g.resolve (s.below_unionMembers hD m hm)]
  exact h m hm

theorem plain_of_atom (h : (t.resolve a).base?.isSome = true) :
    Reduction.needsEvaluation t a = false ∧ (t.resolve a).isUnion = false ∧
      ∀ ms, t.resolve a ≠ .intersection ms := by
  unfold Reduction.needsEvaluation
  cases hty : t.resolve a with
  | primitive | literal => exact ⟨rfl, rfl, nofun⟩
  | _ => rw [hty] at h; cases h

/-- A primitive or literal is found below a type with an alternative above it. -/
theorem Ground.isSubtype (h : t.Ground D) (s : t.Sound) (rest : t.evaluating = [])
    (hD : t.Has D) (ha : (t.resolve a).base?.isSome = true) (hd : d ∈ t.unionMembers D)
    (fits : ∀ F : TypeTable, F.Resting → t.Runs F → F.Comparable a d)
    (untripped : (GradualTyping.isSubtype a D t).2.Untripped) :
    (GradualTyping.isSubtype a D t).1 = true := by
  have below : t.Has a := (atom_alone ha).1
  have run : Leaves Runs t (GradualTyping.isSubtype a D) _ := safe_isSubtype s below hD
  have g := run.related.toGrows
  have F : (GradualTyping.isSubtype a D t).2.Resting :=
    ⟨run.sound, run.related.evaluating.trans rest, untripped⟩
  have ground := h.grows s hD g
  have node := g.resolve below
  have comparable : (GradualTyping.isSubtype a D t).2.Comparable a D := by
    have fits := fits _ F run.related
    rw [← (s.agreeBelow g).unionMembers hD] at hd
    rw [← node] at ha
    generalize (GradualTyping.isSubtype a D t).2 = t' at *
    cases hnode : t'.resolve D with
    | union ms =>
      rw [TypeTable.unionMembers, hnode] at hd
      obtain ⟨plain, hunion, hmeet⟩ := plain_of_atom ha
      exact .of_member F hnode ground.still.whole plain hunion hmeet hd fits
    | never => rw [TypeTable.unionMembers, hnode] at hd; cases hd
    | _ =>
      rw [TypeTable.unionMembers, hnode] at hd
      exact mem_singleton.1 hd ▸ fits
  have affirms : Affirms (GradualTyping.isSubtype a D t).2 t (t.operations.isSubtype [] a D) :=
    affirms_of_comparable F comparable s (atRest_operations rest) below hD []
  exact Leaves.post affirms (.refl F.sound F.untripped)

open Classical in
/-- `undefined` is below `void`. -/
theorem Comparable.of_void (F : t.Resting) (ha : t.resolve a = .primitive .undefined)
    (hd : t.resolve d = .primitive .void) : t.Comparable a d := by
  have atom {c : TypeId} {p : Primitive} (h : t.resolve c = .primitive p) :
      (t.resolve c).base?.isSome = true := by rw [h]; rfl
  refine .of_plain F (atom_alone (atom ha)).1 (atom_alone (atom hd)).1 (plain_of_atom (atom ha)).1
    (plain_of_atom (atom hd)).1 (not_generic_left (by simp [ha])) ?_
  unfold structuralOver
  rw [ha, hd]
  rfl

theorem Sound.eq_of_resolve (s : t.Sound) (h : t.resolve a = t.resolve d)
    (hne : t.resolve a ≠ .never) : a = d :=
  s.get?_inj (get?_of_resolve rfl hne) (get?_of_resolve h.symm hne)

/-- **A constant is found below a type that has its value**, unless the type has it as another
constant. -/
theorem Ground.isSubtype_of_shared (h : t.Ground D) (s : t.Sound) (rest : t.evaluating = [])
    (hD : t.Has D) (constant : (t.resolve value).isConstant = true)
    (apart : value ≠ .undefined → t.Apart heap D value) (hv : t.Holds heap D v)
    (hvalue : (t.resolve value).Contains heap v)
    (untripped : (GradualTyping.isSubtype value D t).2.Untripped) :
    (GradualTyping.isSubtype value D t).1 = true := by
  have atom := Ty.isSome_base?_of_isConstant constant
  obtain ⟨d, hd, hdv⟩ := hv
  have below := (atom_alone atom).1
  have belowd := s.below_unionMembers hD d hd
  refine h.isSubtype s rest hD atom hd (fun F resting g => ?_) untripped
  by_cases top : t.resolve d = .any ∨ t.resolve d = .unknown
  · rw [← g.resolve belowd] at top
    exact .of_settled (g below) (g belowd) (settled_iff.2 (.inr (.inl top)))
  have equal (same : d = value) : F.Comparable value d := by
    rw [same]
    exact .refl (g below)
  have under (hu : F.Under value d) : F.Comparable value d :=
    hu.comparable resting (g below) (g belowd)
      (plain_of_atom (by rwa [g.resolve below])).1 ((h.grows s hD g).still d
        (by rwa [(s.agreeBelow g).unionMembers hD]))
  rcases hdv.meets_constant (fun e => top (.inl e)) (fun e => top (.inr e)) hvalue constant with
    same | ⟨p, hp, base⟩
  · by_cases hundefined : value = .undefined
    · -- `undefined` is a value of `void`, and comparison knows it
      have hnode : t.resolve value = .primitive .undefined :=
        hundefined ▸ s.resolve_primitive .undefined
      rw [hnode] at hvalue
      cases hd' : t.resolve d with
      | primitive p =>
        rw [hd'] at hdv
        cases v with
        | undefined =>
          cases p with
          | undefined => exact equal (s.eq_of_resolve (hd'.trans hnode.symm) (by simp [hd']))
          | void => exact .of_void resting (g.resolve below ▸ hnode) (g.resolve belowd ▸ hd')
          | _ => cases hdv
        | _ => cases hvalue
      | literal l =>
        rw [hd'] at hdv
        cases v with
        | undefined => cases l <;> cases hdv
        | _ => cases hvalue
      | _ => rw [hd'] at same; cases same
    · exact equal (apart hundefined d hd same v hdv hvalue)
  · cases hnode : t.resolve value with
    | primitive q =>
      rw [hnode] at base
      cases base
      exact equal (s.eq_of_resolve (hp.trans hnode.symm) (by simp [hp]))
    | literal l =>
      rw [hnode] at base
      cases base
      exact under (.literal (by rw [g.resolve below, hnode]) (by rw [g.resolve belowd, hp]))
    | _ => rw [hnode] at constant; cases constant

end Comparison

end TypeTable

/-! ### Records -/

/-- An object at run time, by the values of its fields. -/
abbrev Record := String → Option Value

/-- What is read of a field, which is `undefined` if the field is absent. -/
def Record.read (v : Record) (field : String) : Value := (v field).getD .undefined

namespace TypeTable

variable {t t' : TypeTable} {heap : Heap} {type value u : TypeId} {field : String} {v : Record}
  {o : ObjectShape} {p : Property}

/-- A record has the fields of an object type with values of their types; those that are optional
may be absent. -/
def HasFields (t : TypeTable) (heap : Heap) (o : ObjectShape) (v : Record) : Prop :=
  ∀ p ∈ o.properties, match v p.name with
    | some w => t.Holds heap p.type w
    | none => p.optional = true

/-- A record of an alternative that satisfies `C`. -/
def HoldsWhere (t : TypeTable) (heap : Heap) (type : TypeId) (v : Record) (C : ObjectShape → Prop) :
    Prop :=
  ∃ m ∈ t.unionMembers type, ∃ o, t.resolve m = .object o ∧ t.HasFields heap o v ∧ C o

/-- A record of a type. -/
def HoldsRecord (t : TypeTable) (heap : Heap) (type : TypeId) (v : Record) : Prop :=
  t.HoldsWhere heap type v fun _ => True

section

variable (s : t.Sound) (g : t.Grows t')
include s g

theorem Sound.holds_iff {D : TypeId} (hD : t.Has D)
    {w : Value} : t'.Holds heap D w ↔ t.Holds heap D w := by
  unfold Holds
  rw [(s.agreeBelow g).unionMembers hD]
  refine exists_congr fun m => and_congr_right fun hm => ?_
  rw [g.resolve (s.below_unionMembers hD m hm)]

theorem Sound.hasFields_iff (ho : t.Has o) : t'.HasFields heap o v ↔ t.HasFields heap o v := by
  refine forall₂_congr fun p hp => ?_
  cases v p.name with
  | none => exact Iff.rfl
  | some w => exact s.holds_iff g (ho.1 p hp)

/-- The records of a type that is made of alternatives of another. -/
theorem Sound.holdsWhere_of_kept (htype : t.Has type) {May : ObjectShape → Prop}
    (only : ∀ m ∈ t'.unionMembers u, m ∈ t.unionMembers type ∧ ∃ o, t.resolve m = .object o ∧ May o)
    (hv : t'.HoldsRecord heap u v) : t.HoldsWhere heap type v May := by
  obtain ⟨m, hm, o, ho, has, -⟩ := hv
  obtain ⟨hm, o', ho', may⟩ := only m hm
  rw [g.resolve (s.below_unionMembers htype m hm), ho'] at ho
  cases ho
  exact ⟨m, hm, _, ho', (s.hasFields_iff g (s.below_node ho')).1 has, may⟩

theorem Sound.holdsRecord_of_kept (htype : t.Has type) {Must : ObjectShape → Prop}
    (all : ∀ m ∈ t.unionMembers type, ∀ o, t.resolve m = .object o → Must o →
      m ∈ t'.unionMembers u) (hv : t.HoldsWhere heap type v Must) : t'.HoldsRecord heap u v := by
  obtain ⟨m, hm, o, ho, has, must⟩ := hv
  exact ⟨m, all m hm o ho must, o, (g.resolve (s.below_unionMembers htype m hm)).trans ho,
    (s.hasFields_iff g (s.below_node ho)).2 has, trivial⟩

end

/-- The alternatives of a type are objects without open fields, and the values of their field are
known by their kind; none is a constant with the value of `value` under another node. -/
def Discriminates (t : TypeTable) (heap : Heap) (field : String) (value type : TypeId) : Prop :=
  ∀ m ∈ t.unionMembers type, ∃ o, t.resolve m = .object o ∧ o.index = none ∧
    ∀ p, o.property? field = some p →
      t.Ground p.type ∧ (value ≠ .undefined → t.Apart heap p.type value)

theorem Apart.grows {D : TypeId} (h : t.Apart heap D value) (s : t.Sound) (hD : t.Has D)
    (hvalue : t.Has value) (g : t.Grows t') : t'.Apart heap D value := by
  intro m hm
  rw [(s.agreeBelow g).unionMembers hD] at hm
  rw [g.resolve hvalue, g.resolve (s.below_unionMembers hD m hm)]
  exact h m hm

theorem read?_of_closed (closed : o.index = none) :
    o.read? field = (o.property? field).map (·.type) := by
  rw [ObjectShape.read?, closed, Option.or_none]

section

variable (h : t.Discriminates heap field value type)
include h

theorem Discriminates.records : t.Records field type := by
  intro m hm
  obtain ⟨o, ho, closed, fields⟩ := h m hm
  refine ⟨o, ho, fun D hD => ?_⟩
  rw [read?_of_closed closed] at hD
  obtain ⟨p, hp, rfl⟩ := Option.map_eq_some_iff.1 hD
  exact (fields p hp).1.still.whole

/-- **The records where the field is the value.** -/
theorem Discriminates.holds_where_equal (s : t.Sound)
    (rest : t.evaluating = []) (htype : t.Has type) (constant : (t.resolve value).isConstant = true)
    (equal : (t.resolve value).Contains heap (v.read field))
    (untripped : (byField type field value false t).2.Untripped)
    (hv : t.HoldsWhere heap type v fun o =>
      ∃ p, o.property? field = some p ∧ t.Holds heap p.type (v.read field)) :
    (byField type field value false t).2.HoldsRecord heap
      (byField type field value false t).1 v := by
  have hvalue := (atom_alone (Ty.isSome_base?_of_isConstant constant)).1
  have rule : ∀ m ∈ t.unionMembers type, ∀ o, t.resolve m = .object o → ∀ t', t'.Sound → t.Runs t' →
      Keeps Runs t' (fieldRule o field value false) fun t'' b => (b = true → True) ∧
        (False ∨ t''.Untripped → (∃ p, o.property? field = some p ∧
          t.Holds heap p.type (v.read field)) → b = true) := by
    intro m hm o ho t' s' g
    obtain ⟨o', ho', closed, fields⟩ := h m hm
    obtain rfl : o' = o := by rw [ho] at ho'; cases ho'; rfl
    rw [fieldRule, read?_of_closed closed]
    cases hp : o'.property? field with
    | none => exact .pure s' ⟨fun _ => trivial, nofun⟩
    | some p =>
      obtain ⟨ground, apart⟩ := fields p hp
      have hD : t.Has p.type := below_property? (s.below_node ho) p hp
      have asked : Leaves Runs t' (isSubtype value p.type) _ :=
        safe_isSubtype s' (g hvalue) (g hD)
      refine ⟨asked.sound, asked.related, fun _ => trivial, fun hq ⟨p', hp', holds⟩ => ?_⟩
      cases hp'
      refine (ground.grows s hD g).isSubtype_of_shared (v := v.read field) s'
        (g.evaluating.trans rest) (g hD) (by rwa [g.resolve hvalue]) (fun hne => ?_)
        ((s.holds_iff g hD).2 holds) (by rwa [g.resolve hvalue]) (hq.resolve_left id)
      exact (apart hne).grows s hD hvalue g
  obtain ⟨-, runs, -, -, all⟩ := h.records.keeps_byField s htype False _ _ rule
  exact s.holdsRecord_of_kept runs htype (all (.inr untripped)) hv

/-- **The records where the field is not the value.** -/
theorem Discriminates.holds_where_different (s : t.Sound) (htype : t.Has type) :
    (byField type field value true t).2.HoldsRecord heap
        (byField type field value true t).1 v ↔
      t.HoldsWhere heap type v fun o => ∀ p, o.property? field = some p → p.type ≠ value := by
  obtain ⟨-, runs, -, kept⟩ := h.records.keeps_byField_fails s htype value
  have closed {m : TypeId} {o : ObjectShape} (hm : m ∈ t.unionMembers type)
      (ho : t.resolve m = .object o) : o.read? field ≠ some value ↔
        ∀ p, o.property? field = some p → p.type ≠ value := by
    obtain ⟨o', ho', closed, -⟩ := h m hm
    obtain rfl : o' = o := by rw [ho] at ho'; cases ho'; rfl
    rw [read?_of_closed closed]
    simp
  refine ⟨s.holdsWhere_of_kept runs htype fun m hm => ?_,
    s.holdsRecord_of_kept runs htype fun m hm o ho must => ?_⟩
  · obtain ⟨hm, o, ho, hread⟩ := (kept m).1 hm
    exact ⟨hm, o, ho, (closed hm ho).1 hread⟩
  · exact (kept m).2 ⟨hm, o, ho, (closed hm ho).2 must⟩

end

end TypeTable

/-- **Which records the test of a field keeps.**  Where the field is read as the value, a record is
kept if an alternative that has it declares the field with a type that has what is read; where it is
not, exactly if an alternative that has it does not declare the field with the value as its type.
So a record that has the field itself is kept where its alternative declares the field, and a record
that lacks it may be lost. -/
theorem TypeTable.Reachable.narrow_keeps_records {t : TypeTable} (h : t.Reachable) (heap : Heap)
    {type value : TypeId} (htype : Below t.size type) (x : String) {field : String}
    (constant : (t.resolve value).isConstant = true)
    (records : t.Discriminates heap field value type) (v : Record) :
    let narrowed negated := narrowType type (.simple x (.fieldEquals field value) negated) t
    ((t.resolve value).Contains heap (v.read field) → (narrowed false).2.Untripped →
      (t.HoldsWhere heap type v fun o =>
        ∃ p, o.property? field = some p ∧ t.Holds heap p.type (v.read field)) →
      (narrowed false).2.HoldsRecord heap (narrowed false).1 v) ∧
    ((narrowed true).2.HoldsRecord heap (narrowed true).1 v ↔
      t.HoldsWhere heap type v fun o => ∀ p, o.property? field = some p → p.type ≠ value) :=
  ⟨fun equal untripped => records.holds_where_equal h.sound h.quiescent.evaluating htype constant
    equal untripped, records.holds_where_different h.sound htype⟩

/-- The object type with one optional field for `true`. -/
theorem optionalField_discriminates {heap : Heap} :
    let o := objectOf [⟨"f", .true, true, false⟩] none (withLimits {})
    o.2.Reachable ∧ Below o.2.size o.1 ∧ o.2.unionMembers o.1 = [o.1] ∧
      o.2.resolve o.1 = .object ⟨[⟨"f", .true, true, false⟩], none⟩ ∧
      o.2.Discriminates heap "f" .true o.1 := by
  intro o
  have known : o.1.index < o.2.size ∧ o.2.unionMembers o.1 = [o.1] ∧
      o.2.resolve o.1 = .object ⟨[⟨"f", .true, true, false⟩], none⟩ ∧
      o.2.unionMembers .true = [.true] := by
    subst o
    cbv
  obtain ⟨ho, alone, shape, unit⟩ := known
  have r : o.2.Reachable := (Reachable.start {}).step (.object [⟨"f", .true, true, false⟩] none)
    ⟨below_singleton.2 ((sound_withLimits {}).below_fixed rfl), below_none⟩
  refine ⟨r, ho, alone, shape, fun m hm => ?_⟩
  obtain rfl := mem_singleton.1 (alone ▸ hm)
  refine ⟨_, shape, rfl, fun p hp => ?_⟩
  obtain rfl := mem_singleton.1 (mem_of_searchName hp)
  refine ⟨fun m hm => ?_, fun _ m hm _ _ _ _ => mem_singleton.1 (unit ▸ hm)⟩
  obtain rfl := mem_singleton.1 (unit ▸ hm)
  rw [r.sound.resolve_true]
  rfl

/-- The record that has the field is kept just where the field is `true`. -/
theorem narrow_keeps_records_present :
    let heap : Heap := ⟨fun _ _ => True, fun _ _ => True, fun _ => trivial⟩
    let o := objectOf [⟨"f", .true, true, false⟩] none (withLimits {})
    let v : Record := fun _ => some (.boolean true)
    let narrowed negated := narrowType o.1 (.simple "x" (.fieldEquals "f" .true) negated) o.2
    o.2.Reachable ∧ o.2.Discriminates heap "f" .true o.1 ∧
      (narrowed false).2.HoldsRecord heap (narrowed false).1 v ∧
      ¬ (narrowed true).2.HoldsRecord heap (narrowed true).1 v := by
  intro heap o v narrowed
  have known : (narrowed false).2.depthError = none ∧ o.2.unionMembers .true = [.true] := by
    subst narrowed o
    cbv
  obtain ⟨untripped, unit⟩ := known
  obtain ⟨r, ho, alone, shape, records⟩ := optionalField_discriminates
  have node : o.2.resolve .true = .literal (.boolean true) := r.sound.resolve_true
  have holds : o.2.Holds heap .true (.boolean true) := ⟨.true, unit ▸ .head _, node ▸ rfl⟩
  obtain ⟨equal, different⟩ := r.narrow_keeps_records heap ho "x"
    (show (o.2.resolve .true).isConstant = true from node ▸ rfl) records v
  have field := NamesIncrease.property? (r.sound.canonical_node shape) (.head _)
  refine ⟨r, records, equal (node ▸ rfl) untripped ⟨o.1, alone ▸ .head _, _, shape,
    forall_mem_singleton.2 holds, _, field, holds⟩, fun kept => ?_⟩
  obtain ⟨m, hm, o', ho', -, different⟩ := different.1 kept
  obtain rfl := mem_singleton.1 (alone ▸ hm)
  cases shape.symm.trans ho'
  exact different _ field rfl

/-- **A record without the field is lost**: what is read is not `true`, and yet the record is not
kept where the field is not `true`. -/
theorem absent_field_lost :
    let heap : Heap := ⟨fun _ _ => True, fun _ _ => True, fun _ => trivial⟩
    let o := objectOf [⟨"f", .true, true, false⟩] none (withLimits {})
    let v : Record := fun _ => none
    let narrowed := narrowType o.1 (.simple "x" (.fieldEquals "f" .true) true) o.2
    o.2.Reachable ∧ o.2.Discriminates heap "f" .true o.1 ∧ o.2.HoldsRecord heap o.1 v ∧
      ¬ (o.2.resolve .true).Contains heap (v.read "f") ∧
      ¬ narrowed.2.HoldsRecord heap narrowed.1 v := by
  intro heap o v narrowed
  have lost : narrowed.2.unionMembers narrowed.1 = [] := by
    subst narrowed o
    cbv
  obtain ⟨r, -, alone, shape, records⟩ := optionalField_discriminates
  refine ⟨r, records, ⟨o.1, alone ▸ .head _, _, shape, forall_mem_singleton.2 rfl, trivial⟩,
    ?_, ?_⟩
  · rw [r.sound.resolve_true]
    exact id
  · rintro ⟨m, hm, -⟩
    rw [lost] at hm
    cases hm

/-- **A test of a field rules out a type parameter**, and not the object put in its place. -/
theorem generic_ruled_out :
    fresh? (do
      let param ← intern (.param { name := "T", scope := 0 })
      let a ← stringLiteral "a"
      let object ← objectOf [{ name := "tag", type := a }] none
      let kept ← narrowByTest object (.fieldEquals "tag" a) false
      return (← narrowByTest param (.fieldEquals "tag" a) false, kept == object)) =
    some (.never, true) := by
  cbv

end GradualTyping
