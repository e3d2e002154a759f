/-
# Narrowing keeps the values that pass the test

A run-time value belongs to a type by its kind: a primitive or literal type has the
values one expects, the types of objects, arrays, tuples and promises have values of
the object class, and those of functions have values of the function class.  Which of
the latter a type has is left open (`Heap`); only the empty object type has them all.

A test of a value alone (its `typeof` tag, whether it is truthy, whether it is nullish,
whether it is a given constant) is passed or failed by each value.  On either edge of
the test, narrowing keeps every value of the type that takes this edge
(`Reachable.narrow_keeps_values`).

There is one exception.  A type with one value is told from another by its node, so
that a member that has the tested constant under another node is lost:
`undefined` is a value of `void`, and a big integer can be written with leading zeros.
-/

import GradualTyping.Proofs.Narrowing.Members
import GradualTyping.Proofs.UnionBounds
import GradualTyping.Proofs.UnionLaws

namespace GradualTyping

open TypeTable List Narrowing

/-! ### Values -/

/-- A value at run time.  Objects and functions are known by their addresses. -/
inductive Value where
  | undefined
  | null
  | boolean (b : Bool)
  | number (x : Double) (isNumber : x.isNaN = false)
  | string (text : String)
  | bigint (n : Int)
  | symbol (key : Nat)
  | object (address : Nat)
  | function (address : Nat)

namespace Value

/-- What `typeof` reports. -/
def tag : Value → String
  | undefined => "undefined"
  | null => "object"
  | boolean _ => "boolean"
  | number .. => "number"
  | string _ => "string"
  | bigint _ => "bigint"
  | symbol _ => "symbol"
  | object _ => "object"
  | function _ => "function"

def truthy : Value → Bool
  | undefined | null => false
  | boolean b => b
  | number x _ => !x.isZero
  | string text => !text.isEmpty
  | bigint n => n != 0
  | symbol _ | object _ | function _ => true

end Value

/-! ### The values of a type -/

/-- The number that decimal digits stand for. -/
def integer? (digits : List Char) : Option Int :=
  if digits ≠ [] ∧ digits.all Char.isDigit then some (Nat.ofDigitChars 10 digits 0) else none

/-- A literal type has the value that is written, up to the sign of zero. -/
def Literal.Contains : Literal → Value → Prop
  | .string text, .string text' => text' = text
  | .number x, .number y _ => y.canonical = x.canonical
  | .boolean b, .boolean b' => b' = b
  | .bigint digits, .bigint n => integer? digits.toList = some n
  | _, _ => False

def Primitive.Contains : Primitive → Value → Prop
  | .string, .string _ => True
  | .number, .number .. => True
  | .boolean, .boolean _ => True
  | .null, .null => True
  | .undefined, .undefined => True
  | .void, .undefined => True
  | .symbol, .symbol _ => True
  | .bigint, .bigint _ => True
  | _, _ => False

/-- The objects and functions that the types of objects and functions have. -/
structure Heap where
  objects : Ty → Nat → Prop
  functions : Ty → Nat → Prop
  empty : ∀ address, objects (.object ⟨[], none⟩) address

/-- The nodes whose values are known by their kind. -/
def Ty.isGround : Ty → Bool
  | .any | .unknown | .never | .primitive _ | .literal _ | .object _ | .array _ | .tuple _
  | .function _ | .promise _ => true
  | _ => false

def Ty.Contains (heap : Heap) : Ty → Value → Prop
  | .any, _ => True
  | .unknown, _ => True
  | .primitive p, v => p.Contains v
  | .literal l, v => l.Contains v
  | .object o, .object address => heap.objects (.object o) address
  | .array e, .object address => heap.objects (.array e) address
  | .tuple e, .object address => heap.objects (.tuple e) address
  | .promise e, .object address => heap.objects (.promise e) address
  | .function f, .function address => heap.functions (.function f) address
  | _, _ => False

namespace TypeTable

/-- The type is made of nodes whose values are known by their kind. -/
def Ground (t : TypeTable) (type : TypeId) : Prop :=
  ∀ m ∈ t.unionMembers type, (t.resolve m).isGround = true

/-- A union has the values of its members. -/
def Holds (t : TypeTable) (heap : Heap) (type : TypeId) (v : Value) : Prop :=
  ∃ m ∈ t.unionMembers type, (t.resolve m).Contains heap v

end TypeTable

/-! ### Values and tests -/

/-- The nodes with a single value. -/
def Ty.isConstant : Ty → Bool
  | .literal _ => true
  | .primitive p => p.isNullish
  | _ => false

def NullTest.Passes : NullTest → Value → Prop
  | .null, v => v = .null
  | .undefined, v => v = .undefined
  | .both, v => v = .null ∨ v = .undefined

/-- The tests of a value alone; a value can be compared with a type of one value. -/
def Test.IsOfValue (t : TypeTable) : Test → Prop
  | .typeOf _ | .truthy | .nullish _ => True
  | .equals value => (t.resolve value).isConstant = true
  | _ => False

/-- Whether a value passes a test of a value alone. -/
def Test.Passes (t : TypeTable) (heap : Heap) : Test → Value → Prop
  | .typeOf tag, v => v.tag = tag
  | .truthy, v => v.truthy = true
  | .nullish kind, v => kind.Passes v
  | .equals value, v => (t.resolve value).Contains heap v
  | _, _ => False

section Kinds

variable {heap : Heap} {v : Value} {ty : Ty}

theorem Primitive.Contains.tag {p : Primitive} (h : p.Contains v) : v.tag = p.typeofTag := by
  cases p <;> cases v <;> first | rfl | cases h

theorem Literal.Contains.base {l : Literal} (h : l.Contains v) : l.base.Contains v := by
  cases l <;> cases v <;> trivial

/-- The tag of a node is the tag of its values. -/
theorem Ty.Contains.tag (h : ty.Contains heap v) {tag : String} (htag : ty.typeofTag? = some tag) :
    v.tag = tag := by
  cases ty with
  | primitive p => exact (Option.some.inj htag) ▸ Primitive.Contains.tag h
  | literal l => exact (Option.some.inj htag) ▸ Primitive.Contains.tag (Literal.Contains.base h)
  | object | array | tuple | promise | function =>
    cases v <;> first | exact Option.some.inj htag | cases h
  | template | caseMapped => cases h
  | _ => cases htag

/-! ### Truthiness -/

theorem Double.canonical_kind (x : Double) :
    x.canonical.isZero = x.isZero ∧ x.canonical.isNaN = x.isNaN := by
  have apart : x.isZero = true → x.isNaN = false := by
    unfold isZero isNaN
    intro h
    rw [beq_iff_eq.1 (Bool.and_eq_true_iff.1 h).1]
    rfl
  unfold canonical
  split
  · next hzero => exact ⟨hzero.symm, (apart hzero).symm⟩
  split
  · next hzero hnan => exact ⟨(Bool.eq_false_iff.2 hzero).symm, hnan.symm⟩
  · exact ⟨rfl, rfl⟩

theorem ofDigitChars_eq_zero {digits : List Char} (h : digits.all Char.isDigit = true) {n : Nat} :
    Nat.ofDigitChars 10 digits n = 0 ↔ n = 0 ∧ digits.all (· == '0') = true := by
  induction digits generalizing n with
  | nil => simp
  | cons c digits ih =>
    simp only [all_cons, Bool.and_eq_true] at h ⊢
    have digit : c = '0' ↔ c.toNat - '0'.toNat = 0 := by
      have := Char.isDigit_iff_toNat.1 h.1
      rw [← Char.toNat_inj]
      omega
    rw [Nat.ofDigitChars_cons, ih h.2, beq_iff_eq, digit]
    grind

/-- A literal is falsy when its value is. -/
theorem Literal.Contains.isFalsy {l : Literal} (h : l.Contains v) : l.isFalsy = !v.truthy := by
  cases l with
  | string text =>
    cases v with
    | string text' =>
      obtain rfl : text' = text := h
      exact (Bool.not_not _).symm
    | _ => cases h
  | number x =>
    cases v with
    | number y hy =>
      have same : y.canonical = x.canonical := h
      have hzero : x.isZero = y.isZero := by
        rw [← (Double.canonical_kind x).1, ← same, (Double.canonical_kind y).1]
      have hnan : x.isNaN = false := by
        rw [← (Double.canonical_kind x).2, ← same, (Double.canonical_kind y).2, hy]
      simp [Literal.isFalsy, Value.truthy, hzero, hnan]
    | _ => cases h
  | boolean b =>
    cases v with
    | boolean b' => cases h; rfl
    | _ => cases h
  | bigint digits =>
    cases v with
    | bigint n =>
      have value : integer? digits.toList = some n := h
      unfold integer? at value
      split at value
      · next hdigits =>
        obtain rfl := Option.some.inj value
        have zero := ofDigitChars_eq_zero hdigits.2 (n := 0)
        rw [Bool.eq_iff_iff]
        simpa [Literal.isFalsy, Value.truthy] using zero.symm
      · cases value
    | _ => cases h

/-- A node with a truthy value may be truthy, and one with a falsy value may be falsy. -/
theorem Ty.Contains.truth (h : ty.Contains heap v) :
    if v.truthy then mayBeTruthy ty = true else mayBeFalsy ty = true := by
  cases ty with
  | primitive p =>
    cases p <;> cases v <;>
      simp_all [Ty.Contains, Primitive.Contains, Value.truthy, mayBeTruthy,
        mayBeFalsy, Primitive.isNullish]
  | literal l =>
    have hl : l.isFalsy = !v.truthy := Literal.Contains.isFalsy h
    simp only [mayBeTruthy, mayBeFalsy, hl]
    cases v.truthy <;> rfl
  | object | array | tuple | promise | function => cases v <;> first | rfl | cases h
  | any | unknown => split <;> rfl
  | _ => cases h

/-! ### Nullish values and constants -/

theorem Primitive.Contains.accepts_iff {p : Primitive} (h : p.Contains v) (kind : NullTest) :
    kind.accepts (.primitive p) = true ↔ kind.Passes v := by
  cases p <;> cases v <;> cases kind <;>
    simp_all [Primitive.Contains, NullTest.accepts, NullTest.Passes]

/-- A null test accepts a node whose values pass it. -/
theorem Ty.Contains.accepts_iff (h : ty.Contains heap v) (hany : ty ≠ .any)
    (hunknown : ty ≠ .unknown) (kind : NullTest) : kind.accepts ty = true ↔ kind.Passes v := by
  cases ty with
  | primitive p => exact Primitive.Contains.accepts_iff h kind
  | literal l =>
    have base := Literal.Contains.base h
    rw [← base.accepts_iff kind]
    cases l <;> cases kind <;> rfl
  | object | array | tuple | promise | function =>
    cases v <;> first | cases h | cases kind <;> simp [NullTest.accepts, NullTest.Passes]
  | any => exact absurd rfl hany
  | unknown => exact absurd rfl hunknown
  | _ => cases h

theorem Primitive.Contains.unique {p q : Primitive} (hp : p.Contains v) (hq : q.Contains v) :
    p = q ∨ p.isNullish = true ∧ q.isNullish = true := by
  cases p <;> cases v <;> cases q <;> simp_all [Primitive.Contains, Primitive.isNullish]

/-- A node that shares a value with a constant is its primitive, or a constant too. -/
theorem Ty.Contains.meets_constant {ty' : Ty} (h : ty.Contains heap v) (hany : ty ≠ .any)
    (hunknown : ty ≠ .unknown) (h' : ty'.Contains heap v) (constant : ty'.isConstant = true) :
    ty.isConstant = true ∨ ∃ p, ty = .primitive p ∧ some p = ty'.base? := by
  have shared : ∃ q, ty'.base? = some q ∧ q.Contains v := by
    cases ty' with
    | primitive q => exact ⟨q, rfl, h'⟩
    | literal l => exact ⟨l.base, rfl, Literal.Contains.base h'⟩
    | _ => cases constant
  obtain ⟨q, hq, hqv⟩ := shared
  cases ty with
  | primitive p =>
    rcases Primitive.Contains.unique h hqv with rfl | ⟨hp, -⟩
    · exact .inr ⟨p, rfl, hq.symm⟩
    · exact .inl hp
  | literal => exact .inl rfl
  | object | array | tuple | promise | function =>
    cases v <;> cases q <;> first | cases h | cases hqv
  | any => exact absurd rfl hany
  | unknown => exact absurd rfl hunknown
  | _ => cases h

end Kinds

/-! ### Values and unions -/

namespace TypeTable

variable {t : TypeTable} {heap : Heap} {v : Value} {type m : TypeId} {xs : List TypeId}

theorem Ground.still (h : t.Ground type) : t.Still type := by
  intro m hm
  have ground := h m hm
  unfold Reduction.needsEvaluation
  cases hty : t.resolve m with
  | union | intersection => rw [hty] at ground; cases ground
  | _ => rw [hty] at ground; first | rfl | cases ground

/-- **The union of a list has the values of its alternatives.** -/
theorem Sound.holds_unionOf (s : t.Sound) (hxs : t.Has xs) (distinct : t.DistinctShapes xs)
    (hm : m ∈ t.flattenUnion xs) (hv : (t.resolve m).Contains heap v) :
    (unionOf xs t).2.Holds heap (unionOf xs t).1 v := by
  have made : Leaves Runs t (unionOf xs) _ := safe_unionOf s hxs
  have g := made.related.toGrows
  have agree := s.agreeBelow g
  have hmt : t.Has m := by
    obtain ⟨x, hx, hmx⟩ := mem_flatMap.1 hm
    exact s.below_unionMembers (hxs x hx) m hmx
  have isUnion := s.isUnion_unionOf hxs (.refl _)
  obtain ⟨k, hk, cover⟩ := made.sound.exists_canonicalMember (distinct.congr s agree hxs)
    (agree.flattenUnion hxs ▸ hm)
  refine ⟨k, isUnion.unionMembers made.sound ▸ hk, ?_⟩
  rw [← g.resolve hmt] at hv
  rcases cover with rfl | rfl | rfl | ⟨l, hl, hp⟩
  · exact hv
  · rw [made.sound.resolve_any]
    trivial
  · rw [made.sound.resolve_unknown]
    trivial
  · rw [hl] at hv
    rw [hp]
    exact Literal.Contains.base hv

/-- The alternatives of a type have different shapes. -/
theorem Sound.identical_alternatives (s : t.Sound) {a b : TypeId} (ha : a ∈ t.unionMembers type)
    (hb : b ∈ t.unionMembers type) (h : t.identical a b = true) : a = b := by
  cases hty : t.resolve type with
  | union ms =>
    have canonical : t.CanonicalUnion ms := s.canonical_node hty
    rw [TypeTable.unionMembers, hty] at ha hb
    by_cases hab : a = b
    · exact hab
    · rw [canonical.distinct a ha b hb hab] at h
      cases h
  | never =>
    rw [TypeTable.unionMembers, hty] at ha
    cases ha
  | _ =>
    rw [TypeTable.unionMembers, hty] at ha hb
    rw [mem_singleton.1 ha, mem_singleton.1 hb]

/-- A primitive or literal is one alternative, without a shape. -/
theorem atom_alone {k : TypeId} (h : (t.resolve k).base?.isSome = true) :
    t.Has k ∧ t.unionMembers k = [k] ∧ t.hasShape k = false := by
  unfold TypeTable.unionMembers hasShape
  cases hty : t.resolve k with
  | primitive | literal => exact ⟨below_of_get? (get?_of_resolve hty (by simp)), rfl, rfl⟩
  | _ => rw [hty] at h; cases h

/-- **A value stays if a member that has it is kept**, whole or as a primitive or literal. -/
theorem Sound.holds_keepMembers (s : t.Sound) (htype : t.Has type) (still : t.Still type)
    {keep : TypeId → TableM (Option TypeId)}
    (reads : ∀ m ∈ t.unionMembers type, ∃ kept, keep m t = (kept, t) ∧
      ∀ k, kept = some k → k = m ∨ (t.resolve k).base?.isSome = true) (hm : m ∈ t.unionMembers type)
    (hv : ∃ k, keep m t = (some k, t) ∧ (t.resolve k).Contains heap v) :
    (keepMembers type keep t).2.Holds heap (keepMembers type keep t).1 v := by
  obtain ⟨k, hk, hv⟩ := hv
  have run : (t.unionMembers type).filterMapM keep t =
      ((t.unionMembers type).filterMap fun m => (keep m t).1, t) := by
    refine filterMapM_of_reads fun m hm => ?_
    obtain ⟨kept, hkept, -⟩ := reads m hm
    rw [hkept]
  rw [s.keepMembers_of_still still, bind_of_eq run]
  generalize hall : ((t.unionMembers type).filterMap fun m => (keep m t).1) = all
  have own : ∀ k ∈ all, t.Has k ∧ t.unionMembers k = [k] ∧
      (t.hasShape k = true → k ∈ t.unionMembers type) := by
    intro k hk
    obtain ⟨m, hm, hk⟩ := mem_filterMap.1 (hall ▸ hk)
    obtain ⟨kept, hkept, plain⟩ := reads m hm
    rw [hkept] at hk
    rcases plain k hk with rfl | atom
    · exact ⟨s.below_unionMembers htype k hm, s.unionMembers_alternative hm, fun _ => hm⟩
    · obtain ⟨below, alone, shapeless⟩ := atom_alone atom
      exact ⟨below, alone, fun h => absurd (shapeless ▸ h) Bool.false_ne_true⟩
  have flat : t.flattenUnion all = all := flatMap_self fun k hk => (own k hk).2.1
  -- Only members of the type have shapes, and theirs are different.
  have distinct : t.DistinctShapes all := by
    intro a ha b hb same
    rw [flat] at ha hb
    by_cases hab : a = b
    · exact hab
    · exact s.identical_alternatives
        ((own a ha).2.2 (hasShape_of_identical (Ne.symm hab) (identical_comm t ▸ same)))
        ((own b hb).2.2 (hasShape_of_identical hab same)) same
  refine s.holds_unionOf (fun k hk => (own k hk).1) distinct ?_ hv
  rw [flat, ← hall]
  exact mem_filterMap.2 ⟨m, hm, by rw [hk]⟩

theorem Sound.holds_filterMembers (s : t.Sound) (htype : t.Has type) (still : t.Still type)
    {keep : TypeId → TableM Bool} (reads : ∀ m, ∃ b, keep m t = (b, t))
    (hm : m ∈ t.unionMembers type) (hk : keep m t = (true, t))
    (hv : (t.resolve m).Contains heap v) :
    (filterMembers type keep t).2.Holds heap (filterMembers type keep t).1 v := by
  refine s.holds_keepMembers htype still (fun m _ => ?_) hm ⟨m, bind_of_eq hk, hv⟩
  obtain ⟨b, hb⟩ := reads m
  refine ⟨if b then some m else none, bind_of_eq hb, fun k hk => .inl ?_⟩
  split at hk
  · exact (Option.some.inj hk).symm
  · cases hk

end TypeTable

/-! ### The tests -/

section Tests

variable {t : TypeTable} {heap : Heap} {v : Value} {type : TypeId}
variable {negated : Bool}

section

variable (s : t.Sound)
include s

/-- A type with all values, or one none of whose alternatives has all values. -/
theorem TypeTable.Sound.top_or (ground : t.Ground type) :
    (isTop type t = (true, t) ∧ ∀ v, t.Holds heap type v) ∨
      isTop type t = (false, t) ∧
        ∀ m ∈ t.unionMembers type, t.resolve m ≠ .any ∧ t.resolve m ≠ .unknown := by
  rw [s.isTop_of_still ground.still]
  cases hty : t.resolve type with
  | any | unknown =>
    refine .inl ⟨rfl, fun v => ⟨type, ?_, by rw [hty]; trivial⟩⟩
    rw [TypeTable.unionMembers, hty]
    exact .head _
  | union ms =>
    have canonical : t.CanonicalUnion ms := s.canonical_node hty
    refine .inr ⟨rfl, fun m hm => ?_⟩
    rw [TypeTable.unionMembers, hty] at hm
    exact ⟨canonical.notAny m hm, canonical.notUnknown m hm⟩
  | never =>
    refine .inr ⟨rfl, fun m hm => ?_⟩
    rw [TypeTable.unionMembers, hty] at hm
    cases hm
  | _ =>
    refine .inr ⟨rfl, fun m hm => ?_⟩
    rw [TypeTable.unionMembers, hty] at hm
    rw [mem_singleton.1 hm, hty]
    exact ⟨by simp, by simp⟩

/-- A primitive has its values. -/
theorem TypeTable.Sound.holds_primitive {p : Primitive} (h : p.Contains v) :
    t.Holds heap p.id v := by
  have node := s.resolve_primitive p
  refine ⟨p.id, ?_, node ▸ h⟩
  rw [TypeTable.unionMembers, node]
  exact .head _

/-- `{} | null` has all values with the tag `object`. -/
theorem holds_object (h : v.tag = "object") :
    let object := objectOf [] none t
    (unionOf [object.1, .null] object.2).2.Holds heap (unionOf [object.1, .null] object.2).1 v := by
  intro object
  have made : Leaves Runs t (objectOf [] none) _ := safe_objectOf s below_nil below_none
  have node : object.2.resolve object.1 = .object ⟨[], none⟩ :=
    (resolve_of_get? s.indexed.get?_insert).trans
      (by rw [sortProperties_of_namesIncrease .nil])
  have hnull : object.2.resolve .null = .primitive .null := made.sound.resolve_primitive .null
  have flat : object.2.flattenUnion [object.1, .null] = [object.1, .null] := by
    rw [flattenUnion, flatMap_cons, TypeTable.unionMembers, node, flatMap_cons,
      TypeTable.unionMembers, hnull]
    rfl
  have distinct : object.2.DistinctShapes [object.1, .null] := by
    -- Only one of the two has a shape.
    have shaped : ∀ {a}, a ∈ [object.1, .null] → object.2.hasShape a = true → a = object.1 := by
      intro a ha hshape
      rcases mem_cons.1 ha with rfl | ha
      · rfl
      · rw [mem_singleton.1 ha, hasShape, hnull] at hshape
        cases hshape
    intro a ha b hb same
    rw [flat] at ha hb
    by_cases hab : a = b
    · exact hab
    · rw [shaped ha (hasShape_of_identical (Ne.symm hab) (identical_comm _ ▸ same)),
        shaped hb (hasShape_of_identical hab same)]
  have below : Below object.2.size [object.1, TypeId.null] :=
    below_pair.2 ⟨made.post, made.sound.below_fixed rfl⟩
  cases v with
  | null =>
    refine made.sound.holds_unionOf below distinct (m := .null) ?_ (hnull ▸ trivial)
    rw [flat]
    exact .tail _ (.head _)
  | object address =>
    refine made.sound.holds_unionOf below distinct (m := object.1) ?_ (node ▸ heap.empty address)
    rw [flat]
    exact .head _
  | _ => simp [Value.tag] at h

/-- The type of a tag, if there is one, has the values with this tag. -/
theorem holds_typeOfTag? (all : t.Holds heap type v) :
    (typeOfTag? v.tag t).2.Holds heap
      ((typeOfTag? v.tag t).1.getD type) v := by
  cases v with
  | undefined => exact s.holds_primitive (p := .undefined) trivial
  | boolean => exact s.holds_primitive (p := .boolean) trivial
  | number => exact s.holds_primitive (p := .number) trivial
  | string => exact s.holds_primitive (p := .string) trivial
  | bigint => exact s.holds_primitive (p := .bigint) trivial
  | symbol => exact s.holds_primitive (p := .symbol) trivial
  | null | object => exact holds_object s rfl
  | function => exact all

/-- **The edges of a test of the tag.** -/
theorem holds_byTag (htype : t.Has type) (ground : t.Ground type)
    (hv : t.Holds heap type v) {tag : String} {negated : Bool}
    (edge : v.tag = tag ↔ negated = false) :
    (byTag type tag negated t).2.Holds heap (byTag type tag negated t).1 v := by
  unfold byTag
  rcases s.top_or ground with ⟨top, all⟩ | ⟨top, -⟩
  · rw [bind_of_eq top]
    cases negated with
    | true => exact all v
    | false =>
      obtain rfl := edge.2 rfl
      exact holds_typeOfTag? s hv
  · rw [bind_of_eq top, if_neg Bool.false_ne_true]
    obtain ⟨m, hm, hmv⟩ := hv
    have node : ∀ m, resolve m t = (t.resolve m, t) := fun _ => rfl
    refine s.holds_filterMembers htype ground.still (fun m => ?_) hm ?_ hmv
    · rw [bind_of_eq (node m)]
      cases (t.resolve m).typeofTag? with
      | none => exact ⟨_, rfl⟩
      | some => exact ⟨_, rfl⟩
    · rw [bind_of_eq (node m)]
      cases htag : (t.resolve m).typeofTag? with
      | none => rfl
      | some found =>
        have agrees : ((found == tag) != negated) = true := by
          rw [← hmv.tag htag]
          cases negated <;> simp_all
        exact congrArg (·, t) agrees

/-- The half of `boolean` on an edge of a test. -/
theorem TypeTable.Sound.resolve_half (negated : Bool) :
    t.resolve (if negated then .false else .true) = .literal (.boolean !negated) := by
  cases negated with
  | true => exact s.resolve_false
  | false => exact s.resolve_true

/-- The values of `boolean`. -/
theorem TypeTable.Sound.eq_boolean (h : (t.resolve .boolean).Contains heap v) :
    ∃ b, v = .boolean b := by
  rw [s.resolve_boolean] at h
  cases v with
  | boolean b => exact ⟨b, rfl⟩
  | _ => cases h

/-- **The edges of a test of truth.** -/
theorem holds_byTruth (htype : t.Has type) (ground : t.Ground type)
    (hv : t.Holds heap type v) (edge : v.truthy = true ↔ negated = false) :
    (byTruth type negated t).2.Holds heap (byTruth type negated t).1 v := by
  have truth : v.truthy = !negated := by cases negated <;> simp_all
  have half := s.resolve_half negated
  unfold byTruth
  rcases s.top_or ground with ⟨top, all⟩ | ⟨top, -⟩
  · rw [bind_of_eq top]
    exact all v
  · rw [bind_of_eq top, if_neg Bool.false_ne_true]
    obtain ⟨m, hm, hmv⟩ := hv
    refine s.holds_keepMembers htype ground.still (fun m _ => ?_) hm ?_
    · by_cases hboolean : m = .boolean
      · rw [if_pos hboolean]
        refine ⟨_, rfl, fun k hk => .inr ?_⟩
        rw [← Option.some.inj hk, half]
        rfl
      · rw [if_neg hboolean]
        refine ⟨_, rfl, fun k hk => .inl ?_⟩
        exact (Option.some.inj (Option.ite_none_right_eq_some.1 hk).2).symm
    · by_cases hboolean : m = .boolean
      · obtain ⟨b, rfl⟩ := s.eq_boolean (hboolean ▸ hmv)
        rw [if_pos hboolean]
        refine ⟨_, rfl, ?_⟩
        rw [half]
        exact truth
      · have may := hmv.truth
        rw [if_neg hboolean]
        refine ⟨m, Prod.ext (if_pos ?_) rfl, hmv⟩
        cases negated <;> simp_all

/-- The union of primitives and literals has their values. -/
theorem TypeTable.Sound.holds_atoms {xs : List TypeId} {m : TypeId}
    (atoms : ∀ x ∈ xs, (t.resolve x).base?.isSome = true) (hm : m ∈ xs)
    (hv : (t.resolve m).Contains heap v) : (unionOf xs t).2.Holds heap (unionOf xs t).1 v := by
  have flat : t.flattenUnion xs = xs := flatMap_self fun x hx => (atom_alone (atoms x hx)).2.1
  refine s.holds_unionOf (fun x hx => (atom_alone (atoms x hx)).1) ?_ (flat.symm ▸ hm) hv
  intro a ha b hb same
  by_cases hab : a = b
  · exact hab
  · have shapeless := (atom_alone (atoms b (flat ▸ hb))).2.2
    rw [hasShape_of_identical hab same] at shapeless
    cases shapeless

/-- The type of a null test has the values that pass it. -/
theorem holds_typeOfNullTest {kind : NullTest} (h : kind.Passes v) :
    (typeOfNullTest kind t).2.Holds heap (typeOfNullTest kind t).1 v := by
  have hnull : t.resolve .null = .primitive .null := s.resolve_primitive .null
  have hundefined : t.resolve .undefined = .primitive .undefined := s.resolve_primitive .undefined
  cases kind with
  | null =>
    obtain rfl : v = .null := h
    exact s.holds_primitive (p := .null) trivial
  | undefined =>
    obtain rfl : v = .undefined := h
    exact s.holds_primitive (p := .undefined) trivial
  | both =>
    have atoms : ∀ x ∈ [TypeId.null, .undefined], (t.resolve x).base?.isSome = true := by
      intro x hx
      rcases mem_cons.1 hx with rfl | hx
      · rw [hnull]; rfl
      · rw [mem_singleton.1 hx, hundefined]; rfl
    rcases h with rfl | rfl
    · exact s.holds_atoms atoms (.head _) (hnull ▸ trivial)
    · exact s.holds_atoms atoms (.tail _ (.head _)) (hundefined ▸ trivial)

/-- **The edges of a null test.** -/
theorem holds_byNull (htype : t.Has type) (ground : t.Ground type)
    (hv : t.Holds heap type v) {kind : NullTest} {negated : Bool}
    (edge : kind.Passes v ↔ negated = false) :
    (byNull type kind negated t).2.Holds heap
      (byNull type kind negated t).1 v := by
  unfold byNull
  rcases s.top_or ground with ⟨top, all⟩ | ⟨top, proper⟩
  · rw [bind_of_eq top]
    cases negated with
    | true => exact all v
    | false => exact holds_typeOfNullTest s (edge.2 rfl)
  · rw [bind_of_eq top, if_neg Bool.false_ne_true]
    obtain ⟨m, hm, hmv⟩ := hv
    refine s.holds_filterMembers htype ground.still (fun m => ⟨_, rfl⟩) hm ?_ hmv
    have accepts := hmv.accepts_iff (proper m hm).1 (proper m hm).2 kind
    have agrees : (kind.accepts (t.resolve m) != negated ||
        (!negated && (t.resolve m).isParam)) = true := by
      cases negated <;> simp_all
    exact congrArg (·, t) agrees

end

/-! ### Constants -/

/-- No other member of a type is a constant with the value of `value`. -/
def TypeTable.Apart (t : TypeTable) (heap : Heap) (type value : TypeId) : Prop :=
  ∀ m ∈ t.unionMembers type, (t.resolve m).isConstant = true → ∀ v,
    (t.resolve m).Contains heap v → (t.resolve value).Contains heap v → m = value

theorem Ty.isSome_base?_of_isConstant {ty : Ty} (h : ty.isConstant = true) :
    ty.base?.isSome = true := by
  cases ty <;> first | rfl | cases h

/-- What an equal member is replaced by. -/
theorem equalMember_reads {value : TypeId} (constant : (t.resolve value).isConstant = true)
    (m : TypeId) : ∃ kept, equalMember value m t = (kept, t) ∧
      ∀ k, kept = some k → k = m ∨ (t.resolve k).base?.isSome = true := by
  have node : resolve m t = (t.resolve m, t) := rfl
  rw [equalMember, bind_of_eq node]
  cases t.resolve m with
  | primitive p =>
    refine ⟨_, rfl, fun k hk => .inr ?_⟩
    rw [← Option.some.inj (Option.ite_none_right_eq_some.1 hk).2]
    exact Ty.isSome_base?_of_isConstant constant
  | param => exact ⟨_, rfl, fun k hk => .inl (Option.some.inj hk).symm⟩
  | _ => exact ⟨_, rfl, fun k hk => by cases hk⟩

/-- **The edges of a comparison with a constant.** -/
theorem holds_byValue (s : t.Sound) (htype : t.Has type) (ground : t.Ground type)
    (hv : t.Holds heap type v) {value : TypeId} (constant : (t.resolve value).isConstant = true)
    {negated : Bool} (apart : negated = false → t.Apart heap type value)
    (edge : (t.resolve value).Contains heap v ↔ negated = false) :
    (byValue type value negated t).2.Holds heap
      (byValue type value negated t).1 v := by
  have atom := Ty.isSome_base?_of_isConstant constant
  unfold byValue
  rcases s.top_or ground with ⟨top, all⟩ | ⟨top, proper⟩
  · rw [bind_of_eq top]
    cases negated with
    | true => exact all v
    | false => exact ⟨value, (atom_alone atom).2.1 ▸ .head _, edge.2 rfl⟩
  · rw [bind_of_eq top, if_neg Bool.false_ne_true]
    obtain ⟨m, hm, hmv⟩ := hv
    refine s.holds_keepMembers htype ground.still (fun m _ => ?_) hm ?_
    · split
      · refine ⟨if negated then none else some m, by cases negated <;> rfl, fun k hk => .inl ?_⟩
        cases negated <;> cases hk
        rfl
      split
      · next htrue =>
        refine ⟨_, rfl, fun k hk => .inr ?_⟩
        rw [← Option.some.inj hk, htrue.2, s.resolve_half]
        rfl
      split
      · next hfalse =>
        refine ⟨_, rfl, fun k hk => .inr ?_⟩
        cases negated with
        | true => rw [← Option.some.inj hk, if_pos rfl, s.resolve_true]; rfl
        | false => rw [← Option.some.inj hk, if_neg Bool.false_ne_true]; exact atom
      cases negated with
      | true => exact ⟨_, rfl, fun k hk => .inl (Option.some.inj hk).symm⟩
      | false => exact equalMember_reads constant m
    · by_cases hvalue : m = value
      · subst hvalue
        rw [if_pos rfl, edge.1 hmv]
        exact ⟨m, rfl, hmv⟩
      rw [if_neg hvalue]
      by_cases htrue : m = .boolean ∧ value = .true
      · obtain ⟨b, rfl⟩ := s.eq_boolean (htrue.1 ▸ hmv)
        rw [if_pos htrue]
        refine ⟨_, rfl, ?_⟩
        rw [htrue.2, s.resolve_true] at edge
        rw [htrue.2, s.resolve_half]
        cases negated <;> simp_all [Ty.Contains, Literal.Contains]
      rw [if_neg htrue]
      by_cases hfalse : m = .boolean ∧ value = .false
      · obtain ⟨b, rfl⟩ := s.eq_boolean (hfalse.1 ▸ hmv)
        rw [if_pos hfalse]
        refine ⟨_, rfl, ?_⟩
        rw [hfalse.2, s.resolve_false] at edge
        cases negated <;> simp_all [Ty.Contains, Literal.Contains, s.resolve_true, s.resolve_false]
      rw [if_neg hfalse]
      cases negated with
      | true => exact ⟨m, rfl, hmv⟩
      | false =>
        have equal := edge.2 rfl
        rcases hmv.meets_constant (proper m hm).1 (proper m hm).2 equal constant with same | ⟨p, hp, base⟩
        · exact absurd (apart rfl m hm same v hmv equal) hvalue
        · refine ⟨value, ?_, equal⟩
          have node : resolve m t = (t.resolve m, t) := rfl
          rw [if_neg Bool.false_ne_true, equalMember, bind_of_eq node, hp]
          exact Prod.ext (if_pos base) rfl

end Tests

/-- **Narrowing keeps the values that take the edge of a test.**  For every test of a value alone
and either edge, a value of the type that takes the edge is a value of the narrowed type; where the
value equals a constant, no other member may be a constant with this value. -/
theorem TypeTable.Reachable.narrow_keeps_values {t : TypeTable} (h : t.Reachable) (heap : Heap)
    {type : TypeId} (htype : Below t.size type) (ground : t.Ground type) (var : String) {test : Test}
    (kind : test.IsOfValue t) (negated : Bool)
    (apart : negated = false → ∀ value, test = .equals value → t.Apart heap type value) {v : Value}
    (hv : t.Holds heap type v) (edge : test.Passes t heap v ↔ negated = false) :
    (narrowType type (.simple var test negated) t).2.Holds heap
      (narrowType type (.simple var test negated) t).1 v := by
  cases test with
  | typeOf tag => exact holds_byTag h.sound htype ground hv edge
  | truthy => exact holds_byTruth h.sound htype ground hv edge
  | nullish kind => exact holds_byNull h.sound htype ground hv edge
  | equals value =>
    exact holds_byValue h.sound htype ground hv kind (fun hneg => apart hneg value rfl) edge
  | _ => cases kind

/-- `null` is kept of `number | null` where it equals `null`. -/
theorem narrow_keeps_values_null :
    let heap : Heap := ⟨fun _ _ => True, fun _ _ => True, fun _ => trivial⟩
    let u := unionOf [.number, .null] (withLimits {})
    let narrowed := narrowType u.1 (.simple "x" (.equals .null) false) u.2
    u.2.Reachable ∧ u.2.Ground u.1 ∧ u.2.Apart heap u.1 .null ∧ u.2.Holds heap u.1 .null ∧
      narrowed.2.Holds heap narrowed.1 .null := by
  intro heap u narrowed
  have known : u.1.index < u.2.size ∧ u.2.unionMembers u.1 = [.number, .null] := by
    subst narrowed u
    cbv
  obtain ⟨hu, members⟩ := known
  have fixed := sound_withLimits {}
  have r : u.2.Reachable := (Reachable.start {}).step (.union [.number, .null])
    (below_pair.2 ⟨fixed.below_fixed rfl, fixed.below_fixed rfl⟩)
  have hnull : u.2.resolve .null = .primitive .null := r.sound.resolve_primitive .null
  have hnumber : u.2.resolve .number = .primitive .number := r.sound.resolve_primitive .number
  have each {P : TypeId → Prop} (number : P .number) (null : P .null) :
      ∀ m ∈ u.2.unionMembers u.1, P m := by
    rw [members]
    exact forall_mem_cons.2 ⟨number, forall_mem_singleton.2 null⟩
  have ground : u.2.Ground u.1 := each (by rw [hnumber]; rfl) (by rw [hnull]; rfl)
  have apart : u.2.Apart heap u.1 .null :=
    each (fun constant => by rw [hnumber] at constant; cases constant) fun _ _ _ _ => rfl
  have holds : u.2.Holds heap u.1 .null :=
    ⟨.null, members ▸ .tail _ (.head _), hnull ▸ trivial⟩
  have passes : (Test.equals .null).Passes u.2 heap .null ↔ false = false :=
    ⟨fun _ => rfl, fun _ => by rw [Test.Passes, hnull]; trivial⟩
  have kind : (Test.equals .null).IsOfValue u.2 := by rw [Test.IsOfValue, hnull]; rfl
  refine ⟨r, ground, apart, holds, ?_⟩
  refine r.narrow_keeps_values heap hu ground "x" kind false (fun _ value hvalue => ?_) holds passes
  cases hvalue
  exact apart

/-- `undefined` is a value of `void`, and is lost where it equals `undefined`. -/
theorem undefined_lost_from_void :
    let heap : Heap := ⟨fun _ _ => True, fun _ _ => True, fun _ => trivial⟩
    let t := withLimits {}
    let narrowed := narrowType .void (.simple "x" (.equals .undefined) false) t
    t.Reachable ∧ t.Ground .void ∧ (Test.equals .undefined).IsOfValue t ∧
      t.Holds heap .void .undefined ∧ (Test.equals .undefined).Passes t heap .undefined ∧
      ¬ narrowed.2.Holds heap narrowed.1 .undefined := by
  intro heap t narrowed
  have lost : narrowed.2.unionMembers narrowed.1 = [] := by
    subst narrowed t
    cbv
  have r : t.Reachable := .start {}
  have hvoid : t.resolve .void = .primitive .void := r.sound.resolve_primitive .void
  have hundefined : t.resolve .undefined = .primitive .undefined :=
    r.sound.resolve_primitive .undefined
  have members : t.unionMembers .void = [.void] := by rw [TypeTable.unionMembers, hvoid]
  have ground : t.Ground .void := by
    rw [Ground, members]
    exact forall_mem_singleton.2 (by rw [hvoid]; rfl)
  refine ⟨r, ground, ?_, ⟨.void, members ▸ .head _, hvoid ▸ trivial⟩, ?_, ?_⟩
  · rw [Test.IsOfValue, hundefined]; rfl
  · rw [Test.Passes, hundefined]; trivial
  · rintro ⟨m, hm, -⟩
    rw [lost] at hm
    cases hm

end GradualTyping
