/-
# Members, keys and utilities are safe

Built-in members, `keyof`, access by key and the utility types.  The operations
that walk the members of unions have fuel; their triples go by induction on it.

Reduction is walked once for every property that what it builds inherits from its
parts (`Inherited`).  With the property that all types have, this is safety.
-/

import GradualTyping.Proofs.Sound.Substitution

namespace GradualTyping

open TypeTable List

variable {q : Prop} {ops : Operations} {t : TypeTable}
variable {n : Nat}
variable {shape : TupleShape}

/-! ### Parts of nodes -/

theorem safe_isOpen (s : t.Sound) {id : TypeId} : Safe t (isOpen id) := .read rfl (.pure s trivial)

theorem below_read? {o : ObjectShape} {name : String} (h : Below n o) : Below n (o.read? name) := by
  refine Bounded.Below.or (fun id hid => ?_) h.2
  obtain ⟨p, hp, rfl⟩ := Option.map_eq_some_iff.1 hid
  exact below_property? h p hp

theorem below_types (h : Below n shape) : Below n shape.types :=
  below_append.2 ⟨Bounded.Below.map h.1, h.2.toList⟩

theorem below_at? (h : Below n shape) (i : Nat) : Below n (shape.at? i) := by
  refine Bounded.Below.or (fun id hid => ?_) h.2
  obtain ⟨e, he, rfl⟩ := Option.map_eq_some_iff.1 hid
  exact h.1.getElem? i e he

theorem below_select (s : t.Sound) (h : t.Has shape) (x : Double) : t.Has (shape.select x) := by
  refine Bounded.Below.getD ?_ (s.below_fixed rfl)
  split
  · exact below_at? h _
  · exact h.2

theorem below_paramAt? {f : Signature} (h : Below n f) (i : Nat) : Below n (f.paramAt? i) := by
  refine Bounded.Below.or (fun id hid => ?_) h.2.2.1
  obtain ⟨p, hp, rfl⟩ := Option.map_eq_some_iff.1 hid
  exact h.2.1.getElem? i p hp

/-! ### What reduction builds -/

/-- Nodes that are neither reduced nor taken apart by evaluation. -/
def Ty.isHead : Ty → Bool
  | union _ | intersection _ => false
  | ty => !ty.isReducible

/-- Nodes on which a case change waits. -/
def Ty.delaysCase : Ty → Bool
  | literal (.string _) | union _ | primitive .string | any | never => false
  | _ => true

/-- A property of types that is inherited by what reduction builds: nodes with a structural
head, case changes that wait, unions and their members. -/
structure Inherited (P : TypeTable → TypeId → Prop) : Prop where
  runs {t t' : TypeTable} {id : TypeId} :
    t.Sound → t.Runs t' → Below t.size id → P t id → P t' id
  head {t : TypeTable} {id : TypeId} : (t.resolve id).isHead = true → P t id
  delayed {t : TypeTable} {id inner : TypeId} {change : CaseChange} :
    t.resolve id = .caseMapped change inner → (t.resolve inner).delaysCase = true → P t inner → P t id
  union {t : TypeTable} {xs : List TypeId} {u : TypeId} :
    t.Sound → t.IsUnion xs u → (∀ x ∈ xs, P t x) → P t u
  member {t : TypeTable} {id m : TypeId} : P t id → m ∈ t.unionMembers id → P t m

/-- An operation whose result has the property. -/
abbrev Yields (P : TypeTable → TypeId → Prop) (t : TypeTable) (c : TableM TypeId) : Prop :=
  Keeps Runs t c fun t' r => Below t'.size r ∧ P t' r

/-- An operation whose result has the property or is `id`. -/
abbrev Settles (P : TypeTable → TypeId → Prop) (t : TypeTable) (id : TypeId) (c : TableM TypeId) :
    Prop :=
  Keeps Runs t c fun t' r => Below t'.size r ∧ (r = id ∨ P t' r)

/-- Safe operations of which evaluation, from a table on, yields the property. -/
structure Operations.Yielding (ops : Operations) (P : TypeTable → TypeId → Prop) (t : TypeTable) :
    Prop extends ops.Safe where
  yields : ∀ {t' : TypeTable} {id : TypeId}, t'.Sound → t.Runs t' → Below t'.size id →
    Yields P t' (ops.evaluate id)

theorem inherited_true : Inherited fun _ _ => True :=
  ⟨fun _ _ _ _ => trivial, fun _ => trivial, fun _ _ _ => trivial, fun _ _ _ => trivial,
    fun _ _ => trivial⟩

theorem Operations.Safe.yielding (h : ops.Safe) : ops.Yielding (fun _ _ => True) t :=
  { h with yields := fun s' _ hid => (h.evaluate s' hid).mono fun _ _ _ _ hr => ⟨hr, trivial⟩ }

section Inherited

variable {P : TypeTable → TypeId → Prop} {id : TypeId} {c : TableM TypeId}

theorem Operations.Yielding.later {t' : TypeTable} (h : ops.Yielding P t) (r : t.Runs t') :
    ops.Yielding P t' :=
  { h with yields := fun s' r' => h.yields s' (r.trans r') }

theorem Yields.safe (h : Yields P t c) : Safe t c := h.mono fun _ _ _ _ hr => hr.1

theorem Yields.settles (h : Yields P t c) : Settles P t id c :=
  h.mono fun _ _ _ _ hr => ⟨hr.1, .inr hr.2⟩

theorem Settles.safe (h : Settles P t id c) : Safe t c := h.mono fun _ _ _ _ hr => hr.1

theorem settles_self (s : t.Sound) (hid : t.Has id) : Settles P t id (pure id) :=
  .pure s ⟨hid, .inl rfl⟩

namespace Inherited

variable (hP : Inherited P)

include hP

section

variable (s : t.Sound)
include s

theorem of_fixed {i : Nat} {ty : Ty} (h : TypeTable.fixed[i]? = some ty)
    (hty : ty.isHead = true) : P t ⟨i⟩ :=
  hP.head (resolve_of_get? (s.get?_fixed h) ▸ hty)

theorem fixed {i : Nat} {ty : Ty} (h : TypeTable.fixed[i]? = some ty)
    (hty : ty.isHead = true) : Yields P t (pure ⟨i⟩) :=
  .pure s ⟨below_of_get? (s.get?_fixed h), hP.of_fixed s h hty⟩

/-- A node with a structural head. -/
theorem node {ty : Ty} (safe : Safe t c) (run : c t = t.insert ty)
    (hty : ty.isHead = true) : Yields P t c := by
  have safe : Leaves Runs t c _ := safe
  refine ⟨safe.sound, safe.related, safe.post, hP.head ?_⟩
  rw [run, resolve_of_get? s.indexed.get?_insert]
  exact hty

theorem stringLiteral {x : String} : Yields P t (stringLiteral x) :=
  hP.node s (safe_stringLiteral s) rfl rfl

theorem objectOf {ps : List Property} {index : Option TypeId}
    (hps : t.Has ps) (hindex : t.Has index) : Yields P t (objectOf ps index) :=
  hP.node s (safe_objectOf s hps hindex) rfl rfl

theorem arrayOf {e : TypeId} (h : t.Has e) : Yields P t (arrayOf e) :=
  hP.node s (safe_arrayOf s h) rfl rfl

theorem tupleOf {es : List TupleElement} {rest : Option TypeId}
    (hes : t.Has es) (hrest : t.Has rest) : Yields P t (tupleOf es rest) :=
  hP.node s (safe_tupleOf s hes hrest) rfl rfl

theorem unionOf {ms : List TypeId} (hms : t.Has ms) (h : ∀ m ∈ ms, P t m) :
    Yields P t (unionOf ms) := by
  have safe : Leaves Runs t (GradualTyping.unionOf ms) _ := safe_unionOf s hms
  refine ⟨safe.sound, safe.related, safe.post, ?_⟩
  exact hP.union safe.sound (s.isUnion_unionOf hms (.refl _)) fun m hm =>
    hP.runs s safe.related (hms m hm) (h m hm)

theorem mapM {α : Type} {xs : List α} {f : α → TableM TypeId}
    (h : ∀ x ∈ xs, ∀ t', t'.Sound → t.Runs t' → Yields P t' (f x)) :
    Keeps Runs t (xs.mapM f) fun t' rs => t'.Has rs ∧ ∀ r ∈ rs, P t' r := by
  exact (Tabled.Keeps.mapM_all s (fun s' r' hr => ⟨r' hr.1, hP.runs s' r' hr.1 hr.2⟩) h).mono
    fun _ _ _ _ hrs => ⟨fun r hr => (hrs r hr).1, fun r hr => (hrs r hr).2⟩

/-- The union of what a loop gives. -/
theorem unionOf_mapM {α : Type} {xs : List α} {f : α → TableM TypeId}
    (h : ∀ x ∈ xs, ∀ t', t'.Sound → t.Runs t' → Yields P t' (f x)) :
    Yields P t (do GradualTyping.unionOf (← xs.mapM f)) :=
  (hP.mapM s h).bind fun _ _ s1 _ hrs => hP.unionOf s1 hrs.1 hrs.2

end

end Inherited

end Inherited

/-! ### Built-in members -/

namespace Members

variable {name : String}

/-- The function of a method without type parameters. -/
theorem stable_method (s : t.Sound) {params : List Parameter} {result : TypeId}
    (hparams : t.Has params) (hresult : t.Has result) :
    Stable t (functionOf { params := params, result := result }) :=
  stable_functionOf s ⟨below_nil, hparams, below_none, hresult, below_none⟩

theorem stable_some {c : TableM TypeId} (h : Stable t c) : Stable t (some <$> c) :=
  h.map fun _ _ h => below_some.2 h

/-- Parameters of fixed types. -/
theorem below_fixedParams (s : t.Sound) {ps : List Parameter} (h : ∀ p ∈ ps, p.type.index < 13) :
    t.Has ps :=
  fun p hp => s.below_fixed (Nat.ble_eq_true_of_le (h p hp))

/-- A method with parameters and a result of fixed types. -/
theorem stable_fixedMethod (s : t.Sound) {params : List Parameter} {result : TypeId}
    (hparams : ∀ p ∈ params, p.type.index < 13) (hresult : result.index < 13) :
    Stable t (some <$> functionOf { params := params, result := result }) :=
  stable_some (stable_method s (below_fixedParams s hparams) (s.below_fixed (Nat.ble_eq_true_of_le hresult)))

theorem stable_ofString? (s : t.Sound) : Stable t (ofString? name) := by
  unfold ofString?
  split
  · exact .pure s (below_some.2 (s.below_primitive .number))
  iterate 10 exact stable_fixedMethod s (by decide) (by decide)
  · refine (stable_arrayOf s (s.below_primitive .string)).bind fun t1 texts s1 _ ht => ?_
    exact stable_some (stable_method s1 (below_fixedParams s1 (by decide)) ht)
  · exact .pure s below_none

theorem stable_ofNumber? (s : t.Sound) : Stable t (ofNumber? name) := by
  unfold ofNumber?
  split
  iterate 2 exact stable_fixedMethod s (by decide) (by decide)
  · exact .pure s below_none

/-- One parameter. -/
theorem below_param {n : Nat} {p : Parameter} (h : Below n p.type) : Below n [p] :=
  below_singleton.2 h

/-- A callback on an element and its position. -/
theorem stable_callback (value index : String) (s : t.Sound) {element result : TypeId}
    (he : t.Has element) (hr : t.Has result) :
    Stable t (functionOf
      { params := [⟨value, element, false⟩, ⟨index, .number, false⟩], result := result }) :=
  stable_method s (below_cons.2 ⟨he, below_param (s.below_primitive .number)⟩) hr

theorem stable_ofArray? (s : t.Sound) {element : TypeId} (he : t.Has element)
    (name : String) : Stable t (ofArray? element name) := by
  have element? : Stable t (unionOf [element, .undefined]) :=
    stable_unionOf s (below_pair.2 ⟨he, s.below_undefined⟩)
  have test := stable_callback "value" "index" s he s.below_unknown
  unfold ofArray?
  split
  · exact .pure s (below_some.2 (s.below_primitive .number))
  · exact stable_some (stable_functionOf s
      ⟨below_nil, below_nil, below_some.2 he, s.below_primitive .number, below_none⟩)
  iterate 2 exact element?.bind fun _ _ s1 _ h1 => stable_some (stable_method s1 below_nil h1)
  · exact stable_fixedMethod s (by decide) (by decide)
  · exact stable_some (stable_method s (below_param he) (s.below_primitive .boolean))
  · exact stable_some (stable_method s (below_param he) (s.below_primitive .number))
  · refine (stable_arrayOf s he).bind fun _ _ s1 _ h1 => ?_
    exact stable_some (stable_method s1 (below_fixedParams s1 (by decide)) h1)
  · refine (stable_arrayOf s he).bind fun _ _ s1 r1 h1 => ?_
    exact stable_some (stable_functionOf s1
      ⟨below_nil, below_nil, below_some.2 (r1 he), h1, below_none⟩)
  · refine (stable_callback _ _ s he (s.below_primitive .void)).bind fun _ _ s1 _ h1 => ?_
    exact stable_some (stable_method s1 (below_param h1) (s1.below_primitive .void))
  · refine test.bind fun _ _ s1 r1 h1 =>
      (stable_arrayOf s1 (r1 he)).bind fun _ _ s2 r2 h2 => ?_
    exact stable_some (stable_method s2 (below_param (r2 h1)) h2)
  · refine test.bind fun _ _ s1 r1 h1 => ?_
    refine (stable_unionOf s1 (below_pair.2 ⟨r1 he, s1.below_undefined⟩)).bind fun _ _ s2 r2 h2 =>
      ?_
    exact stable_some (stable_method s2 (below_param (r2 h1)) h2)
  · refine test.bind fun _ _ s1 _ h1 => ?_
    exact stable_some (stable_method s1 (below_param h1) (s1.below_primitive .boolean))
  · refine test.bind fun _ _ s1 _ h1 => ?_
    exact stable_some (stable_method s1 (below_param h1) (s1.below_primitive .boolean))
  · refine (stable_param s ⟨below_none, below_none⟩).bind fun _ u s1 r1 hu => ?_
    refine (stable_callback _ _ s1 (r1 he) hu).bind fun _ image s2 r2 himage => ?_
    refine (stable_arrayOf s2 (r2 hu)).bind fun _ images s3 r3 himages => ?_
    exact stable_some (stable_functionOf s3 ⟨below_singleton.2 ((r2.trans r3) hu),
      below_param (r3 himage), below_none, himages, below_none⟩)
  · exact .pure s below_none

theorem stable_ofEvaluated? (s : t.Sound) {id : TypeId} (hid : t.Has id) :
    Stable t (ofEvaluated? name id) := by
  have toText : Stable t (if (name == "toString") = true then
      some <$> functionOf { params := [], result := .string } else pure none) := by
    split
    · exact stable_fixedMethod s nofun (by decide)
    · exact .pure s below_none
  unfold ofEvaluated?
  refine .read (fun _ => rfl) (fun t' p => (p.agree s).resolve hid) ?_
  rw [show ((resolve id : TableM Ty) t).1 = t.resolve id from rfl]
  split
  iterate 4 exact stable_ofString? s
  iterate 2 exact stable_ofNumber? s
  iterate 4 exact toText
  · next element helement => exact stable_ofArray? s (s.below_node helement) name
  · next shape hshape =>
    refine (stable_unionOf s (below_types (s.below_node hshape))).bind fun _ _ s1 _ h1 => ?_
    exact stable_ofArray? s1 h1 name
  · exact .pure s below_none

theorem safe_member? (hops : ops.Safe) (s : t.Sound) {id : TypeId} (hid : t.Has id)
    : Safe t (member? ops id name) :=
  (hops.evaluate s hid).bind fun _ _ s1 _ he => (stable_ofEvaluated? s1 he).safe

end Members

/-! ### Keys -/

namespace Reduction

variable {id : TypeId}
variable {node : Ty}

section Descent

variable {α : Type} [Bounded α] {d : Descent α}

theorem repeats_within (hops : ops.Repeats q)
    (hparts : ∀ {n node}, Below n node → Below n (d.parts node))
    (hanswer : ∀ {t evaluated node answers}, t.Sound → t.Has evaluated →
      t.Has node → t.Has answers → Repeats q t (d.answer evaluated node answers))
    {fuel : Nat} (s : t.Sound) {id : TypeId} (hid : t.Has id) :
    Repeats q t (d.within ops fuel id) := by
  induction fuel generalizing t id with
  | zero => exact RepeatsAs.pure s below_none rfl
  | succ fuel ih =>
    refine .bind (.lifted (hops.evaluate s hid)) fun t1 evaluated s1 _ he => ?_
    refine .node he ?_
    have hnode : t1.Has (t1.resolve evaluated) := s1.below_node rfl
    refine .bind (.mapM s1 fun part hpart t2 s2 r2 =>
      ih s2 (r2 (hparts hnode part hpart))) fun t2 answers s2 r2 ha => ?_
    exact .lifted (hanswer s2 (r2 he) (r2 hnode) ha)

theorem repeats_descent (hops : ops.Repeats q)
    (hparts : ∀ {n node}, Below n node → Below n (d.parts node))
    (hanswer : ∀ {t evaluated node answers}, t.Sound → t.Has evaluated →
      t.Has node → t.Has answers → Repeats q t (d.answer evaluated node answers))
    (s : t.Sound) {fallback : α} (hf : t.Has fallback) {id : TypeId}
    (hid : t.Has id) : Repeats q t (d.run ops fallback id) := by
  have found : Repeats q t (d.within ops Descent.nestingLimit id).run :=
    repeats_within hops hparts hanswer s hid
  exact .bind found fun _ _ s1 r1 h => .pure s1 (h.getD (r1 hf))

end Descent

theorem repeats_keyNames (hops : ops.Repeats q) (s : t.Sound)
    (hid : t.Has id) : Repeats q t (keyNames ops id) := by
  refine repeats_descent hops (fun {n node} h => ?_) (fun {t _ node answers} s _ _ _ => ?_) s
    below_nil hid
  · cases node with
    | union members => exact h
    | intersection members => exact h
    | _ => exact below_nil
  · dsimp only [naming]
    split <;> exact Repeating.pure s fun _ _ => trivial

theorem safe_keyNames (hops : ops.Safe) (s : t.Sound) (hid : t.Has id) : Safe t (keyNames ops id) :=
  (repeats_keyNames hops.repeats s hid).safe

theorem below_anyKey (s : t.Sound) : t.Has [TypeId.string, .number, .symbol] :=
  below_cons.2 ⟨s.below_primitive .string, below_cons.2
    ⟨s.below_primitive .number, below_singleton.2 (s.below_primitive .symbol)⟩⟩

theorem stable_anyKey (s : t.Sound) : Stable t anyKey := stable_unionOf s (below_anyKey s)

theorem safe_anyKey (s : t.Sound) : Safe t anyKey := (stable_anyKey s).safe

/-- Two types. -/
theorem below_two {a b : TypeId} (ha : Below n a) (hb : Below n b) : Below n [a, b] :=
  below_pair.2 ⟨ha, hb⟩

theorem settles_keyOf {P : TypeTable → TypeId → Prop} (hP : Inherited P) (hops : ops.Yielding P t)
    (s : t.Sound) {operand : TypeId} (hid : t.Has id) (ho : t.Has operand) :
    Settles P t id (keyOf ops id operand) := by
  unfold keyOf
  refine (hops.yields s (.refl t) ho).bind fun t1 target s1 r1 ht => .read rfl ?_
  split
  · exact settles_self s1 (r1 hid)
  refine .read rfl ?_
  have length : Yields P t1 (do
      let length ← stringLiteral "length"
      unionOf [.number, length]) :=
    (hP.stringLiteral s1).bind fun _ _ s2 _ hl =>
      hP.unionOf s2 (below_two (s2.below_primitive .number) hl.1) (forall_mem_cons.2
        ⟨hP.of_fixed s2 (i := 4) rfl rfl, forall_mem_singleton.2 hl.2⟩)
  split
  · exact (hP.unionOf s1 (below_anyKey s1) (by
      simpa using ⟨hP.of_fixed s1 (i := 3) rfl rfl, hP.of_fixed s1 (i := 4) rfl rfl,
        hP.of_fixed s1 (i := 9) rfl rfl⟩)).settles
  · refine ((hP.mapM s1 fun p _ _ s2 _ => hP.stringLiteral s2).bind
      fun t2 names s2 _ hnames => (hP.unionOf s2 ?_ ?_).settles)
    · split
      · exact below_append.2 ⟨hnames.1, below_singleton.2 (s2.below_primitive .string)⟩
      · exact hnames.1
    · split
      · exact forall_mem_append.2 ⟨hnames.2,
          forall_mem_singleton.2 (hP.of_fixed s2 (i := 3) rfl rfl)⟩
      · exact hnames.2
  iterate 2 exact length.settles
  · refine (safe_keyNames hops.toSafe s1 ht.1).bind fun t2 names s2 _ _ => ?_
    exact (hP.unionOf_mapM s2 fun x _ _ s3 _ => hP.stringLiteral s3).settles
  · next ms hms =>
    refine (hP.unionOf_mapM s1 fun m hm t2 s2 r2 => ?_).settles
    refine (safe_keyOf s2 (r2 (s1.below_node hms m hm))).bind fun _ _ s3 r3 hk => ?_
    exact hops.yields s3 ((r1.trans r2).trans r3) hk
  · exact (hP.fixed s1 (i := 2) rfl rfl).settles

section

variable (hops : ops.Safe) (s : t.Sound)
include hops s

theorem safe_readField {o : ObjectShape} (ho : t.Has o)
    (name : String) : Safe t (readField ops o name) := by
  unfold readField
  split
  · next p hp =>
    have hp := below_property? ho p hp
    split
    · exact safe_unionOf s (below_two hp s.below_undefined)
    · exact hops.evaluate s hp
  · exact .pure s (ho.2.getD s.below_unknown)

theorem safe_accessMember {key object : TypeId}
    (ho : t.Has object) : Safe t (accessMember ops key object) := by
  unfold accessMember
  refine .read rfl ?_
  split
  · exact .pure s s.below_any
  · next o l hres _ => exact safe_readField hops s (s.below_node hres) _
  · next o hres _ =>
    have ho : t.Has o := s.below_node hres
    split
    · next index hindex => exact .pure s (ho.2 index hindex)
    · exact safe_unionOf s (Bounded.Below.map ho.1)
  · next element hres _ => exact .pure s (s.below_node hres)
  · next element _ hres _ => exact .pure s (s.below_node hres)
  · next shape x hres _ =>
    refine .pure s ?_
    split
    · exact below_select s (s.below_node hres) x
    · exact s.below_undefined
  · next shape hres _ => exact safe_unionOf s (below_types (s.below_node hres))
  · refine (Members.safe_member? hops s ho).bind fun t1 member s1 _ hm => ?_
    exact .pure s1 (hm.getD s1.below_unknown)
  · exact .pure s s.below_unknown

theorem safe_access {object key : TypeId} (ho : t.Has object) : Safe t (access ops object key) := by
  unfold access
  refine .read rfl ?_
  split
  · next ms hms =>
    refine (Tabled.Keeps.mapM s fun m hm t1 s1 r1 => ?_).bind fun _ _ s1 _ h => safe_unionOf s1 h
    exact safe_accessMember hops s1 (r1 (s.below_node hms m hm))
  · exact safe_accessMember hops s ho

theorem safe_indexed {object index : TypeId}
    (hid : t.Has id) (ho : t.Has object) (hi : t.Has index) :
    Safe t (indexed ops id object index) := by
  unfold indexed
  refine (hops.evaluate s ho).bind fun t1 object s1 r1 ho => ?_
  refine (hops.evaluate s1 (r1 hi)).bind fun t2 index s2 r2 hi => .read rfl ?_
  have hid := (r1.trans r2) hid
  split
  · exact .pure s2 hid
  refine .read rfl ?_
  split
  · exact .pure s2 hid
  refine .read rfl ?_
  refine (Tabled.Keeps.mapM s2 fun key hkey t3 s3 r3 => ?_).bind fun _ _ s3 _ h => safe_unionOf s3 h
  exact safe_access hops s3 ((r2.trans r3) ho)

end

/-! ### Utilities -/

theorem below_alternatives (h : Below n node) : Below n node.alternatives := by
  cases node with
  | union members => exact h
  | _ => exact below_nil

theorem safe_literalKeys (hops : ops.Safe) (s : t.Sound) {keys : TypeId} (h : t.Has keys) :
    Safe t (literalKeys ops keys) :=
  (hops.evaluate s h).bind fun _ _ s1 _ _ => .read rfl (.pure s1 fun _ _ => trivial)

section Yields

variable {P : TypeTable → TypeId → Prop} (hP : Inherited P)

include hP

theorem yields_modifying {readonly optional : Option Bool} {evaluated : TypeId} {node : Ty}
    {answers : List TypeId} (s : t.Sound) (he : t.Has evaluated ∧ P t evaluated)
    (hnode : t.Has node) (ha : t.Has answers ∧ ∀ r ∈ answers, P t r) :
    Yields P t ((modifying readonly optional).answer evaluated node answers) := by
  dsimp only [modifying]
  split
  · next o =>
    have ho : t.Has o := hnode
    exact hP.objectOf s (Bounded.Below.map fun p hp => ho.1 p hp) ho.2
  · exact hP.unionOf s ha.1 ha.2
  · next shape =>
    have hshape : t.Has shape := hnode
    exact hP.tupleOf s (Bounded.Below.map fun e he => hshape.1 e he) hshape.2
  · exact .pure s he

theorem yields_taking (kind : CallKind) {part : SignaturePart} {evaluated : TypeId} {node : Ty}
    {answers : List TypeId} (s : t.Sound)
    (hpart : ∀ f : Signature, t.Has f → Yields P t (part.of f))
    (hnode : t.Has node) (ha : t.Has answers ∧ ∀ r ∈ answers, P t r) :
    Yields P t ((taking kind part).answer evaluated node answers) := by
  dsimp only [taking]
  split
  · split
    · exact hP.arrayOf s s.below_unknown
    · exact hP.fixed s (i := 0) rfl rfl
  · exact hP.unionOf s ha.1 ha.2
  · split
    · exact hpart _ hnode
    · exact hP.fixed s (i := 2) rfl rfl
  · exact hP.fixed s (i := 2) rfl rfl

theorem yields_pick (hops : ops.Yielding P t) {keep : Bool} (s : t.Sound) {target keys : TypeId}
    (ht : t.Has target) (hk : t.Has keys) : Yields P t (pick ops keep target keys) := by
  unfold pick
  refine (safe_literalKeys hops.toSafe s hk).bind fun t1 names s1 r1 _ => ?_
  refine (hops.yields s1 r1 (r1 ht)).bind fun t2 evaluated s2 _ he => .read rfl ?_
  split
  · next o ho =>
    have ho : t2.Has o := s2.below_node ho
    refine hP.objectOf s2 (ho.1.filter _) ?_
    split
    · exact below_none
    · exact ho.2
  · exact .pure s2 he

theorem yields_record (hops : ops.Safe) (s : t.Sound) {keys value : TypeId}
    (hk : t.Has keys) (hv : t.Has value) : Yields P t (record ops keys value) := by
  unfold record
  refine (hops.evaluate s hk).bind fun t1 keys s1 r1 _ => .read rfl ?_
  have hv := r1 hv
  refine hP.objectOf s1 (Bounded.Below.filterMap fun k _ p hp => ?_) ?_
  · obtain ⟨l, -, rfl⟩ := Option.map_eq_some_iff.1 hp
    exact hv
  · split
    · exact below_some.2 hv
    · exact below_none

theorem yields_filterMembers (hops : ops.Yielding P t) {keep : Bool} (s : t.Sound)
    {target filter : TypeId} (ht : t.Has target) (hf : t.Has filter) :
    Yields P t (filterMembers ops keep target filter) := by
  unfold filterMembers
  refine (hops.yields s (.refl t) ht).bind fun t1 target s1 r1 ht => .read rfl ?_
  have hms := s1.below_unionMembers ht.1
  refine (Tabled.Keeps.filterM s1 fun m hm t2 s2 r2 => ?_).bind fun t2 kept s2 r2 hkept => ?_
  · refine (hops.toSafe.subtype s2 (r2 (hms m hm)) ((r1.trans r2) hf)).bind ?_
    exact fun _ _ s3 _ _ => .pure s3 trivial
  · exact hP.unionOf s2 ((r2 hms).subset hkept) fun m hm =>
      hP.runs s1 r2 (hms m (hkept hm)) (hP.member ht.2 (hkept hm))

theorem yields_dropNullish (hops : ops.Yielding P t) (s : t.Sound) {target : TypeId}
    (ht : t.Has target) : Yields P t (dropNullish ops target) :=
  (hops.yields s (.refl t) ht).bind fun _ _ s1 _ ht => .read rfl
    (hP.unionOf s1 ((s1.below_unionMembers ht.1).filter _) fun _ hm =>
      hP.member ht.2 (mem_filter.1 hm).1)

end Yields

theorem safe_signaturePartOf (s : t.Sound) (part : SignaturePart) {f : Signature}
    (hf : t.Has f) : Safe t (part.of f) := by
  unfold SignaturePart.of
  split
  · exact safe_tupleOf s (Bounded.Below.map hf.2.1) hf.2.2.1
  · refine .pure s ?_
    split
    · exact s.below_primitive .boolean
    · exact hf.2.2.2.1

theorem safe_modifying {readonly optional : Option Bool} {evaluated : TypeId}
    {answers : List TypeId} (s : t.Sound) (he : t.Has evaluated) (hnode : t.Has node)
    (ha : t.Has answers) : Safe t ((modifying readonly optional).answer evaluated node answers) :=
  (yields_modifying inherited_true s ⟨he, trivial⟩ hnode
    ⟨ha, fun _ _ => trivial⟩).safe

theorem safe_withModifiers (hops : ops.Safe) {readonly optional : Option Bool} (s : t.Sound)
    (hid : t.Has id) : Safe t (withModifiers ops readonly optional id) :=
  (repeats_descent hops.repeats below_alternatives
    (fun s he hn ha => .of_safe (safe_modifying s he hn ha)) s hid hid).safe

theorem safe_taking (kind : CallKind) (part : SignaturePart) {evaluated : TypeId}
    {answers : List TypeId} (s : t.Sound) (hnode : t.Has node) (ha : t.Has answers) :
    Safe t ((taking kind part).answer evaluated node answers) :=
  (yields_taking inherited_true kind s (fun _ hf => (safe_signaturePartOf s part hf).mono
    fun _ _ _ _ h => ⟨h, trivial⟩) hnode ⟨ha, fun _ _ => trivial⟩).safe

theorem safe_signaturePart (hops : ops.Safe) (kind : CallKind) (part : SignaturePart) (s : t.Sound)
    (hid : t.Has id) : Safe t (signaturePart ops kind part id) :=
  (repeats_descent hops.repeats below_alternatives
    (fun s _ hn ha => .of_safe (safe_taking kind part s hn ha)) s s.below_never hid).safe

theorem safe_utility (hops : ops.Safe) (s : t.Sound) (u : Utility)
    {args : List TypeId} (hid : t.Has id) (hargs : t.Has args) :
    Safe t (utility ops id u args) := by
  unfold utility
  refine (Tabled.Keeps.anyM s fun _ _ _ s' _ => safe_isOpen s').bind fun t1 waits s1 r1 _ => ?_
  split
  · exact .pure s1 (r1 hid)
  have first := (r1 (hargs.getElem? 0)).getD s1.below_unknown
  have second := (r1 (hargs.getElem? 1)).getD s1.below_unknown
  dsimp only
  split
  iterate 3 exact safe_withModifiers hops s1 first
  iterate 2 exact (yields_pick inherited_true hops.yielding s1 first second).safe
  · exact (yields_record inherited_true hops s1 first second).safe
  iterate 2 exact (yields_filterMembers inherited_true hops.yielding s1 first second).safe
  · exact (yields_dropNullish inherited_true hops.yielding s1 first).safe
  iterate 4 exact safe_signaturePart hops _ _ s1 first
  · exact hops.awaited s1 first
  · exact (safe_caseMapped s1 _ first).bind fun _ _ s2 _ h => hops.evaluate s2 h

end Reduction

end GradualTyping
