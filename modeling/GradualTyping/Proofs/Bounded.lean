/-
# The types inside a value

A node, a signature, a substitution or the state of an inference holds types by
their positions.  `Below n a` says that every type held by `a` stands among the
first `n` of a table.  A table only grows, and what is below its size stays below
(`Bounded.mono`).

For a node the same is said by the list of the types it holds (`Ty.ids`):
`below_iff_ids`.
-/

import GradualTyping.Inference.Solve
import GradualTyping.Reduction.Evaluate
import GradualTyping.Substitution.Apply

namespace GradualTyping

open List

variable {n : Nat}

/-- Values that hold types. -/
class Bounded (α : Type) where
  /-- All types of a value are among the first `n`. -/
  Below : Nat → α → Prop
  mono : ∀ {m n : Nat} {a : α}, m ≤ n → Below m a → Below n a

export Bounded (Below)

/-- The types that a value holds are types of the table. -/
abbrev TypeTable.Has {α : Type} [Bounded α] (t : TypeTable) (a : α) : Prop := Below t.size a

/-! ### Types, lists and options -/

instance : Bounded TypeId := ⟨fun n id => id.index < n, fun h h' => Nat.lt_of_lt_of_le h' h⟩

/-- Values that hold no type. -/
instance : Bounded Unit := ⟨fun _ _ => True, fun _ _ => trivial⟩
instance : Bounded Bool := ⟨fun _ _ => True, fun _ _ => trivial⟩
instance : Bounded Nat := ⟨fun _ _ => True, fun _ _ => trivial⟩
instance : Bounded String := ⟨fun _ _ => True, fun _ _ => trivial⟩
instance : Bounded TypeError := ⟨fun _ _ => True, fun _ _ => trivial⟩
instance : Bounded Reduction.Expansion := ⟨fun _ _ => True, fun _ _ => trivial⟩

section Containers

variable {α β : Type} [Bounded α] [Bounded β] {n : Nat}
variable {γ : Type}

instance : Bounded (List α) :=
  ⟨fun n l => ∀ a ∈ l, Below n a, fun h hl a ha => Bounded.mono h (hl a ha)⟩

instance : Bounded (Option α) :=
  ⟨fun n o => ∀ a ∈ o, Below n a, fun h ho a ha => Bounded.mono h (ho a ha)⟩

instance : Bounded (α × β) :=
  ⟨fun n p => Below n p.1 ∧ Below n p.2, fun h hp => ⟨Bounded.mono h hp.1, Bounded.mono h hp.2⟩⟩

instance : Bounded (Except β α) :=
  ⟨fun n r => ∀ a, r = .ok a → Below n a, fun h hr a ha => Bounded.mono h (hr a ha)⟩

theorem below_list {l : List α} : Below n l ↔ ∀ a ∈ l, Below n a := Iff.rfl

@[simp] theorem below_nil : Below n ([] : List α) := by simp [below_list]

@[simp] theorem below_cons {a : α} {l : List α} : Below n (a :: l) ↔ Below n a ∧ Below n l := by
  simp [below_list]

theorem below_singleton {a : α} : Below n [a] ↔ Below n a := by simp

theorem below_pair {a b : α} : Below n [a, b] ↔ Below n a ∧ Below n b := by simp

@[simp] theorem below_append {l l' : List α} : Below n (l ++ l') ↔ Below n l ∧ Below n l' := by
  simp only [below_list, mem_append]
  exact ⟨fun h => ⟨fun a ha => h a (.inl ha), fun a ha => h a (.inr ha)⟩,
    fun h a ha => ha.elim (h.1 a) (h.2 a)⟩

theorem Bounded.Below.subset {l l' : List α} (h : Below n l) (hs : l' ⊆ l) : Below n l' :=
  fun a ha => h a (hs ha)

theorem Bounded.Below.drop {l : List α} (h : Below n l) (k : Nat) : Below n (l.drop k) :=
  h.subset (drop_subset k l)

theorem Bounded.Below.tail {l : List α} (h : Below n l) : Below n l.tail :=
  fun a ha => h a (mem_of_mem_tail ha)

theorem Bounded.Below.filter {l : List α} (h : Below n l) (p : α → Bool) : Below n (l.filter p) :=
  fun a ha => h a (mem_filter.1 ha).1

theorem Bounded.Below.map {l : List γ} {f : γ → α} (h : ∀ a ∈ l, Below n (f a)) :
    Below n (l.map f) := by
  intro b hb
  obtain ⟨a, ha, rfl⟩ := mem_map.1 hb
  exact h a ha

theorem Bounded.Below.filterMap {l : List γ} {f : γ → Option α}
    (h : ∀ a ∈ l, ∀ b, f a = some b → Below n b) : Below n (l.filterMap f) := by
  intro b hb
  obtain ⟨a, ha, hab⟩ := mem_filterMap.1 hb
  exact h a ha b hab

theorem Bounded.Below.flatMap {l : List γ} {f : γ → List α}
    (h : ∀ a ∈ l, Below n (f a)) : Below n (l.flatMap f) := by
  intro b hb
  obtain ⟨a, ha, hab⟩ := mem_flatMap.1 hb
  exact h a ha b hab

/-- A fold keeps its state below when each step does. -/
theorem Bounded.Below.foldl {f : α → γ → α} {l : List γ} {init : α} (h : Below n init)
    (hf : ∀ a, Below n a → ∀ c ∈ l, Below n (f a c)) : Below n (l.foldl f init) := by
  induction l generalizing init with
  | nil => exact h
  | cons c l ih =>
    exact ih (hf init h c (.head _)) fun a ha d hd => hf a ha d (.tail _ hd)

@[simp] theorem below_none : Below n (none : Option α) := fun _ h => nomatch h

@[simp] theorem below_some {a : α} : Below n (some a) ↔ Below n a :=
  ⟨fun h => h a rfl, fun h _ hb => Option.some.inj hb ▸ h⟩

theorem Bounded.Below.toList {o : Option α} (h : Below n o) : Below n o.toList := by
  cases o with
  | none => exact below_nil
  | some a => exact below_singleton.2 (below_some.1 h)

theorem Bounded.Below.getD {o : Option α} {a : α} (h : Below n o) (ha : Below n a) :
    Below n (o.getD a) := by
  cases o with
  | none => exact ha
  | some b => exact below_some.1 h

theorem Bounded.Below.or {o o' : Option α} (h : Below n o) (h' : Below n o') :
    Below n (o.or o') := by
  cases o with
  | none => exact h'
  | some a => exact h

theorem Bounded.Below.getElem? {l : List α} (h : Below n l) (i : Nat) : Below n l[i]? :=
  fun a ha => h a (mem_of_getElem? ha)

theorem Bounded.Below.findSome? {l : List γ} {f : γ → Option α}
    (h : ∀ c ∈ l, Below n (f c)) : Below n (l.findSome? f) := by
  intro a ha
  obtain ⟨c, hc, hca⟩ := exists_of_findSome?_eq_some ha
  exact h c hc a hca

theorem Bounded.Below.zip {l : List α} {l' : List β} (h : Below n l) (h' : Below n l') :
    Below n (l.zip l') :=
  fun _ hp => ⟨h _ (of_mem_zip hp).1, h' _ (of_mem_zip hp).2⟩

theorem Bounded.Below.lookup {l : List (String × α)} (h : Below n l) (name : String) :
    Below n (l.lookup name) := by
  induction l with
  | nil => exact below_none
  | cons p l ih =>
    obtain ⟨hp, hl⟩ := below_cons.1 h
    rw [lookup_cons]
    split
    · exact below_some.2 hp.2
    · exact ih hl

end Containers

theorem below_addOnce {ids : List TypeId} {id : TypeId} (h : Below n ids)
    (h' : Below n id) : Below n (addOnce ids id) := by
  unfold addOnce
  split
  · exact h
  · exact below_append.2 ⟨h, below_singleton.2 h'⟩

/-! ### Nodes -/

instance : Bounded Property := ⟨fun n p => Below n p.type, Bounded.mono⟩

instance : Bounded ObjectShape :=
  ⟨fun n o => Below n o.properties ∧ Below n o.index,
    fun h => .imp (Bounded.mono h) (Bounded.mono h)⟩

instance : Bounded TupleElement := ⟨fun n e => Below n e.type, Bounded.mono⟩

instance : Bounded TupleShape :=
  ⟨fun n t => Below n t.elements ∧ Below n t.rest, fun h => .imp (Bounded.mono h) (Bounded.mono h)⟩

instance : Bounded Parameter := ⟨fun n p => Below n p.type, Bounded.mono⟩

instance : Bounded Predicate := ⟨fun n p => Below n p.type, Bounded.mono⟩

instance : Bounded Signature :=
  ⟨fun n f => Below n f.typeParams ∧ Below n f.params ∧ Below n f.rest ∧ Below n f.result ∧
      Below n f.predicate,
    fun h => .imp (Bounded.mono h) (.imp (Bounded.mono h) (.imp (Bounded.mono h)
      (.imp (Bounded.mono h) (Bounded.mono h))))⟩

instance : Bounded TypeParam :=
  ⟨fun n p => Below n p.bound ∧ Below n p.fallback, fun h => .imp (Bounded.mono h) (Bounded.mono h)⟩

instance : Bounded Conditional :=
  ⟨fun n c => Below n c.check ∧ Below n c.pattern ∧ Below n c.yes ∧ Below n c.no,
    fun h => .imp (Bounded.mono h) (.imp (Bounded.mono h) (.imp (Bounded.mono h) (Bounded.mono h)))⟩

instance : Bounded MappedShape :=
  ⟨fun n m => Below n m.param ∧ Below n m.keys ∧ Below n m.template,
    fun h => .imp (Bounded.mono h) (.imp (Bounded.mono h) (Bounded.mono h))⟩

/-- The types in a span of a template. -/
def TemplateSpan.ids : TemplateSpan → List TypeId
  | .text _ => []
  | .hole h => [h]

instance : Bounded TemplateSpan := ⟨fun n s => Below n s.ids, Bounded.mono⟩

@[simp] theorem below_text {s : String} : Below n (TemplateSpan.text s) :=
  below_nil (α := TypeId)

@[simp] theorem below_hole {h : TypeId} : Below n (TemplateSpan.hole h) ↔ Below n h := by
  show Below n [h] ↔ _
  simp

/-- The types in a signature, those of its own parameters first. -/
def Signature.ids (f : Signature) : List TypeId :=
  f.typeParams ++ f.params.map (·.type) ++ f.rest.toList ++ [f.result]
    ++ (f.predicate.map (·.type)).toList

/-- All types that a node holds. -/
def Ty.ids : Ty → List TypeId
  | .object o => o.properties.map (·.type) ++ o.index.toList
  | .array e => [e]
  | .tuple t => t.elements.map (·.type) ++ t.rest.toList
  | .function f => f.ids
  | .union ms | .intersection ms => ms
  | .param p => p.bound.toList ++ p.fallback.toList
  | .reference _ args => args
  | .conditional c => [c.check, c.pattern, c.yes, c.no]
  | .mapped m => [m.param, m.keys, m.template]
  | .keyOf t | .promise t | .caseMapped _ t => [t]
  | .indexed o i => [o, i]
  | .template spans => spans.flatMap TemplateSpan.ids
  | .any | .unknown | .never | .primitive _ | .literal _ | .var _ | .infer _ => []

/-- The types of a node are among the first `n`, by the parts of the node. -/
def Ty.Within (n : Nat) : Ty → Prop
  | .object o => Below n o
  | .array e => Below n e
  | .tuple t => Below n t
  | .function f => Below n f
  | .union ms | .intersection ms => Below n ms
  | .param p => Below n p
  | .reference _ args => Below n args
  | .conditional c => Below n c
  | .mapped m => Below n m
  | .keyOf t | .promise t | .caseMapped _ t => Below n t
  | .indexed o i => Below n o ∧ Below n i
  | .template spans => Below n spans
  | .any | .unknown | .never | .primitive _ | .literal _ | .var _ | .infer _ => True

theorem Ty.Within.mono {m : Nat} {ty : Ty} (h : m ≤ n) (hty : ty.Within m) : ty.Within n := by
  cases ty with
  | indexed o i => exact ⟨Bounded.mono h hty.1, Bounded.mono h hty.2⟩
  | any | unknown | never | primitive | literal | var | infer => trivial
  | _ => exact Bounded.mono h hty

instance : Bounded Ty := ⟨fun n ty => ty.Within n, Ty.Within.mono⟩

theorem below_map_type {α : Type} [Bounded α] {f : α → TypeId} {l : List α}
    (hf : ∀ a, Below n (f a) ↔ Below n a) : Below n (l.map f) ↔ Below n l := by
  simp only [below_list, forall_mem_map, hf]

theorem below_toList {α : Type} [Bounded α] {o : Option α} : Below n o.toList ↔ Below n o := by
  cases o <;> simp

/-- **The types of a node are those it lists.** -/
theorem below_iff_ids {ty : Ty} : Below n ty ↔ ∀ id ∈ ty.ids, id.index < n := by
  show ty.Within n ↔ Below n ty.ids
  cases ty with
  | object o =>
    simp only [Ty.Within, Ty.ids, below_append, below_toList]
    rw [below_map_type (f := fun p : Property => p.type) fun _ => Iff.rfl]
    exact Iff.rfl
  | tuple t =>
    simp only [Ty.Within, Ty.ids, below_append, below_toList]
    rw [below_map_type (f := fun e : TupleElement => e.type) fun _ => Iff.rfl]
    exact Iff.rfl
  | function f =>
    obtain ⟨typeParams, params, rest, result, kind, predicate⟩ := f
    simp only [Ty.Within, Ty.ids, Signature.ids, below_append, below_toList, below_cons]
    rw [below_map_type (f := fun p : Parameter => p.type) fun _ => Iff.rfl]
    have hp : Below n (predicate.map (·.type)) ↔ Below n predicate := by
      cases predicate <;> simp [Below]
    rw [hp]
    simp [Below, and_assoc]
  | param p => simp only [Ty.Within, Ty.ids, below_append, below_toList]; exact Iff.rfl
  | conditional c => simp [Ty.Within, Ty.ids, Below]
  | mapped m => simp [Ty.Within, Ty.ids, Below]
  | template spans =>
    simp only [Ty.Within, Ty.ids, below_list, mem_flatMap]
    exact ⟨fun h id ⟨s, hs, hid⟩ => h s hs id hid, fun h s hs id hid => h id ⟨s, hs, hid⟩⟩
  | indexed o i => simp [Ty.Within, Ty.ids]
  | array | keyOf | promise | caseMapped => simp [Ty.Within, Ty.ids]
  | union | intersection | reference => exact Iff.rfl
  | any | unknown | never | primitive | literal | var | infer => simp [Ty.Within, Ty.ids]

/-- The parts of a node are among its types. -/
theorem Ty.parts_subset_ids (ty : Ty) : ty.parts ⊆ ty.ids := by
  cases ty with
  | function f => exact fun m hm => by simp_all [Ty.parts, Ty.ids, Signature.parts, Signature.ids]
  | template spans =>
    intro m hm
    obtain ⟨span, hspan, hm⟩ := mem_filterMap.1 hm
    cases span with
    | text => cases hm
    | hole x => exact mem_flatMap.2 ⟨_, hspan, Option.some.inj hm ▸ .head _⟩
  | mapped => exact subset_cons_self ..
  | param => exact nil_subset _
  | _ => exact List.Subset.refl _

end GradualTyping
