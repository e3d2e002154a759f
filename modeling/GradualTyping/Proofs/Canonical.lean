/-
# Canonical nodes

A table keeps its nodes in canonical form.  `Canonical t ty` says what that is
for each kind of node: the members of unions and intersections stand in the
order of their positions, none of them absorbs another, the fields of an object
stand in the order of their names, and so on.

The pure steps of normalisation contribute one clause each: sorting positions
(`increasing_sortIds`) and fields (`namesIncrease_sortProperties`), merging spans
(`canonicalSpans_mergeSpans`) and collapsing members of one shape
(`not_identical_of_mem_collapse`).  The form of a node only depends on the nodes
below it (`Canonical.congr`), so it survives the growth of its table.
-/

import GradualTyping.Proofs.Bounded

namespace GradualTyping

open List

variable {ids : List TypeId} {ps : List Property} {name : String}
variable {n : Nat} {p : Property} {spans : List TemplateSpan}

/-- Positions that increase along a list. -/
def Increasing (ids : List TypeId) : Prop := ids.Pairwise fun a b => a.index < b.index

/-- Names that increase along a list of fields. -/
def NamesIncrease (ps : List Property) : Prop := ps.Pairwise fun p q => p.name < q.name

/-- What the spans of a template are like. -/
structure CanonicalSpans (spans : List TemplateSpan) : Prop where
  noEmptyText : .text "" ∉ spans
  noAdjacentTexts : ∀ a b, ¬ [.text a, .text b] <:+: spans
  someHole : ∃ h, .hole h ∈ spans

namespace TypeTable

/-- What the members of a union are like. -/
structure CanonicalUnion (t : TypeTable) (ms : List TypeId) : Prop where
  several : 2 ≤ ms.length
  increasing : Increasing ms
  /-- No member is a union or absorbs the others or is absorbed by them. -/
  notUnion : ∀ m ∈ ms, (t.resolve m).isUnion = false
  notNever : ∀ m ∈ ms, t.resolve m ≠ .never
  notAny : ∀ m ∈ ms, t.resolve m ≠ .any
  notUnknown : ∀ m ∈ ms, t.resolve m ≠ .unknown
  /-- No literal stands beside its primitive. -/
  uncovered : ∀ m ∈ ms, ∀ l, t.resolve m = .literal l → ∀ p ∈ ms, t.resolve p ≠ .primitive l.base
  notBothBooleans : ¬ (.true ∈ ms ∧ .false ∈ ms)
  /-- No two members have one shape. -/
  distinct : ∀ a ∈ ms, ∀ b ∈ ms, a ≠ b → t.identical a b = false

/-- What the members of an intersection are like. -/
structure CanonicalIntersection (t : TypeTable) (ms : List TypeId) : Prop where
  several : 2 ≤ ms.length
  increasing : Increasing ms
  notIntersection : ∀ m ∈ ms, ∀ parts, t.resolve m ≠ .intersection parts
  notUnknown : ∀ m ∈ ms, t.resolve m ≠ .unknown
  notNever : ∀ m ∈ ms, t.resolve m ≠ .never
  notAny : ∀ m ∈ ms, t.resolve m ≠ .any
  oneObject : ∀ a ∈ ms, ∀ b ∈ ms, (t.resolve a).isObject → (t.resolve b).isObject → a = b
  /-- At most one member is a primitive or a literal. -/
  oneAtom : ∀ a ∈ ms, ∀ b ∈ ms, (t.resolve a).base?.isSome → (t.resolve b).base?.isSome → a = b
  /-- `null`, `undefined` and `void` do not stand beside an object. -/
  inhabited : ∀ a ∈ ms, ∀ b ∈ ms, (t.resolve a).isNullish → (t.resolve b).isObject = false
  /-- A union is left only if the first one is too long to distribute over. -/
  undistributed : ∀ m ∈ ms, ∀ alternatives, t.resolve m = .union alternatives →
    (∀ m' ∈ ms, (t.resolve m').isUnion → m.index ≤ m'.index) →
    distributionLimit < alternatives.length

/-- What a node of a table is like. -/
def Canonical (t : TypeTable) : Ty → Prop
  | .union ms => t.CanonicalUnion ms
  | .intersection ms => t.CanonicalIntersection ms
  | .object o => NamesIncrease o.properties
  | .promise inner => ∀ i, t.resolve inner ≠ .promise i
  | .template spans => CanonicalSpans spans
  | _ => True

end TypeTable

/-! ### Positions in order -/

theorem two_le_length {α : Type} {l : List α} (hnil : l ≠ []) (hone : ∀ a, l ≠ [a]) :
    2 ≤ l.length := by
  rcases l with _ | ⟨a, _ | ⟨b, l⟩⟩
  · exact absurd rfl hnil
  · exact absurd rfl (hone a)
  · simp

theorem mem_dropRepeats {α : Type} [DecidableEq α] {l : List α} {a : α} :
    a ∈ dropRepeats l ↔ a ∈ l := by
  fun_induction dropRepeats l with
  | case1 => exact Iff.rfl
  | case2 => exact Iff.rfl
  | case3 b rest ih => simp [ih]
  | case4 a b rest _ ih => simp [ih]

theorem increasing_dropRepeats {l : List TypeId} (h : l.Pairwise fun a b => a.index ≤ b.index) :
    Increasing (dropRepeats l) := by
  fun_induction dropRepeats l with
  | case1 => exact .nil
  | case2 => exact pairwise_singleton ..
  | case3 b rest ih => exact ih h.of_cons
  | case4 a b rest hab ih =>
    refine pairwise_cons.2 ⟨fun c hc => ?_, ih h.of_cons⟩
    have hb : a.index < b.index := by
      have hle := (pairwise_cons.1 h).1 b (.head _)
      have hne : a.index ≠ b.index := fun e => hab (by cases a; cases b; simpa using e)
      omega
    -- Everything after `b` is at or above `b`.
    rcases mem_cons.1 (mem_dropRepeats.1 hc) with rfl | hc
    · exact hb
    · exact Nat.lt_of_lt_of_le hb ((pairwise_cons.1 h.of_cons).1 c hc)

theorem mem_sortIds {id : TypeId} : id ∈ sortIds ids ↔ id ∈ ids := by
  simp [sortIds, mem_dropRepeats, mem_mergeSort]

theorem increasing_sortIds : Increasing (sortIds ids) := by
  refine increasing_dropRepeats ?_
  have h := @pairwise_mergeSort _ TypeId.ble
    (fun a b c hab hbc => by simp only [TypeId.ble, decide_eq_true_eq] at *; omega)
    (fun a b => by simp only [TypeId.ble, Bool.or_eq_true, decide_eq_true_eq]; omega) ids
  exact h.imp fun hab => by simpa only [TypeId.ble, decide_eq_true_eq] using hab

theorem dropRepeats_of_increasing (h : Increasing ids) : dropRepeats ids = ids := by
  fun_induction dropRepeats ids with
  | case1 => rfl
  | case2 => rfl
  | case3 b rest ih => exact absurd ((pairwise_cons.1 h).1 b (.head _)) (Nat.lt_irrefl _)
  | case4 a b rest _ ih => rw [ih h.of_cons]

theorem sortIds_of_increasing (h : Increasing ids) : sortIds ids = ids := by
  rw [sortIds, mergeSort_of_pairwise, dropRepeats_of_increasing h]
  exact h.imp fun hab => decide_eq_true (Nat.le_of_lt hab)

theorem below_sortIds (h : Below n ids) : Below n (sortIds ids) :=
  fun id hid => h id (mem_sortIds.1 hid)

/-! ### Fields in order -/

/-- What is kept of fields in order has distinct names. -/
theorem namesIncrease_keepFirst {last : Option String}
    (h : ps.Pairwise fun p q => p.name ≤ q.name) (hlast : ∀ p ∈ ps, ∀ n ∈ last, n ≤ p.name) :
    NamesIncrease (keepFirst last ps) ∧ ∀ p ∈ keepFirst last ps, ∀ n ∈ last, n < p.name := by
  fun_induction keepFirst last ps with
  | case1 => exact ⟨.nil, fun _ hp => nomatch hp⟩
  | case2 p ps ih => exact ih h.of_cons fun q hq => hlast q (.tail _ hq)
  | case3 last p ps other ih =>
    obtain ⟨above, h⟩ := pairwise_cons.1 h
    obtain ⟨increase, behind⟩ := ih h fun q hq n hn => Option.some.inj hn ▸ above q hq
    have first : ∀ n ∈ last, n < p.name := fun n hn =>
      Std.lt_of_le_of_ne (hlast p (.head _) n hn) fun e => other (hn.trans (congrArg some e))
    refine ⟨pairwise_cons.2 ⟨fun q hq => behind q hq _ rfl, increase⟩, ?_⟩
    refine forall_mem_cons.2 ⟨first, fun q hq n hn => ?_⟩
    exact String.lt_trans (first n hn) (behind q hq _ rfl)

/-- The first field of a name is kept. -/
theorem find?_keepFirst {last : Option String} (ps : List Property) (h : last ≠ some name) :
    (keepFirst last ps).find? (·.name == name) = ps.find? (·.name == name) := by
  fun_induction keepFirst last ps with
  | case1 => rfl
  | case2 p ps ih => rw [ih h, find?_cons, beq_eq_false_iff_ne.2 fun e => h (congrArg some e)]
  | case3 last p ps _ ih =>
    rw [find?_cons, find?_cons]
    split
    · rfl
    · next other => exact ih fun e => beq_eq_false_iff_ne.1 other (Option.some.inj e)

theorem Property.ble_trans (p q r : Property) (h : p.ble q = true) (h' : q.ble r = true) :
    p.ble r = true :=
  decide_eq_true (String.le_trans (of_decide_eq_true h) (of_decide_eq_true h'))

theorem Property.ble_total (p q : Property) : (p.ble q || q.ble p) = true := by
  simpa [ble] using String.le_total p.name q.name

theorem namesIncrease_sortProperties : NamesIncrease (sortProperties ps) := by
  have sorted := pairwise_mergeSort Property.ble_trans Property.ble_total ps.reverse
  exact (namesIncrease_keepFirst (sorted.imp of_decide_eq_true) fun _ _ _ hn => by cases hn).1

/-- Sorting is stable: the fields of one name keep their order, as they are a sublist in order. -/
theorem filter_mergeSort (ps : List Property) (name : String) :
    (ps.mergeSort Property.ble).filter (·.name == name) = ps.filter (·.name == name) := by
  have ordered : (ps.filter (·.name == name)).Pairwise (·.ble ·) := by
    refine (pairwise_of_forall fun _ _ => trivial).imp_of_mem fun hp hq _ => decide_eq_true ?_
    have same := eq_of_beq (mem_filter.1 hp).2 |>.trans (eq_of_beq (mem_filter.1 hq).2).symm
    exact same ▸ Std.le_refl _
  have sub := (sublist_mergeSort Property.ble_trans Property.ble_total ordered
    filter_sublist).filter (·.name == name)
  rw [filter_filter] at sub
  simp only [Bool.and_self] at sub
  exact (sub.eq_of_length ((mergeSort_perm ps _).filter _).length_eq.symm).symm

theorem find?_sortProperties (ps : List Property) :
    (sortProperties ps).find? (·.name == name) = (ps.filter (·.name == name)).getLast? := by
  rw [sortProperties, find?_keepFirst _ (Option.some_ne_none name).symm, ← head?_filter, filter_mergeSort,
    filter_reverse, head?_reverse]

theorem mem_of_searchName (h : searchName name ps = some p) : p ∈ ps := by
  fun_induction searchName name ps with
  | case1 ps => exact mem_of_mem_head? (Option.filter_eq_some_iff.1 h).1
  | case2 ps _ _ ih => exact mem_of_mem_take (ih h)
  | case3 ps _ _ ih => exact mem_of_mem_drop (ih h)

theorem searchName_eq_find? (h : NamesIncrease ps) :
    searchName name ps = ps.find? (·.name == name) := by
  have split (k : Nat) (ps : List Property) : ps.find? (·.name == name) =
      ((ps.take k).find? (·.name == name)).or ((ps.drop k).find? (·.name == name)) := by
    rw [← find?_append, take_append_drop]
  fun_induction searchName name ps with
  | case1 ps short =>
    rcases ps with _ | ⟨p, _ | _⟩
    · rfl
    · rw [head?_cons, Option.filter_some, find?_singleton]
    · simp at short
  | case2 ps long before ih =>
    -- behind the middle all names are greater
    have behind : (ps.drop (ps.length - ps.length / 2)).find? (·.name == name) = none := by
      refine find?_eq_none.2 fun p hp same => ?_
      rw [← beq_iff_eq.1 same] at before
      have hp := (drop_sublist_drop_left ps (show ps.length / 2 ≤ _ by omega)).mem hp
      have ordered := h.sublist (drop_sublist (ps.length / 2) ps)
      rw [drop_eq_getElem_cons (by omega)] at hp ordered
      rcases mem_cons.1 hp with rfl | hp
      · exact String.lt_irrefl _ before
      · exact String.lt_asymm before ((pairwise_cons.1 ordered).1 p hp)
    rw [ih (h.sublist (take_sublist _ _)), split _ ps, behind, Option.or_none]
  | case3 ps long before ih =>
    have front : (ps.take (ps.length / 2)).find? (·.name == name) = none := by
      refine find?_eq_none.2 fun p hp same => ?_
      obtain ⟨i, hi, rfl⟩ := mem_take_iff_getElem.1 hp
      rw [← beq_iff_eq.1 same] at before
      exact before (pairwise_iff_getElem.1 h _ _ _ _ (Nat.lt_of_lt_of_le hi (Nat.min_le_left ..)))
    rw [ih (h.sublist (drop_sublist _ _)), split _ ps, front, Option.none_or]
namespace NamesIncrease

variable {ps qs : List Property} {p q : Property}

theorem find?_eq_some_iff (h : NamesIncrease ps) :
    ps.find? (·.name == p.name) = some p ↔ p ∈ ps := by
  refine ⟨mem_of_find?_eq_some, fun hp => ?_⟩
  obtain ⟨before, behind, rfl⟩ := append_of_mem hp
  refine find?_eq_some_iff_append.2 ⟨beq_self_eq_true _, before, behind, rfl, fun q hq => ?_⟩
  have lt : q.name < p.name := (pairwise_append.1 h).2.2 q hq p (.head _)
  simpa using fun same : q.name = p.name => String.lt_irrefl _ (same ▸ lt)

theorem property? {o : ObjectShape} (h : NamesIncrease o.properties) (hp : p ∈ o.properties) :
    o.property? p.name = some p :=
  (searchName_eq_find? h).trans (h.find?_eq_some_iff.2 hp)

theorem unique (h : NamesIncrease ps) (hp : p ∈ ps) (hq : q ∈ ps) (hname : q.name = p.name) :
    q = p :=
  Option.some.inj ((h.find?_eq_some_iff.2 hq).symm.trans (hname ▸ h.find?_eq_some_iff.2 hp))

theorem ext (hps : NamesIncrease ps) (hqs : NamesIncrease qs) (h : ∀ p, p ∈ ps ↔ p ∈ qs) :
    ps = qs := by
  have nodup {rs : List Property} (hrs : NamesIncrease rs) : rs.Nodup :=
    List.Pairwise.imp (fun {p q : Property} (lt : p.name < q.name) (same : p = q) =>
      String.lt_irrefl _ (same ▸ lt)) hrs
  exact List.Perm.eq_of_pairwise (fun p q _ _ lt gt => absurd gt (String.lt_asymm lt)) hps hqs
    ((perm_ext_iff_of_nodup (nodup hps) (nodup hqs)).2 h)

end NamesIncrease

theorem mem_sortProperties_iff :
    p ∈ sortProperties ps ↔ (ps.filter (·.name == p.name)).getLast? = some p := by
  rw [← find?_sortProperties, namesIncrease_sortProperties.find?_eq_some_iff]

theorem mem_of_mem_sortProperties {q : Property} (h : q ∈ sortProperties ps) : q ∈ ps :=
  (mem_filter.1 (mem_of_getLast? (mem_sortProperties_iff.1 h))).1

/-- A field is kept where no other field has its name. -/
theorem mem_sortProperties (hp : p ∈ ps)
    (one : ∀ q ∈ ps, q.name = p.name → q = p) : p ∈ sortProperties ps := by
  rw [mem_sortProperties_iff]
  cases h : (ps.filter (·.name == p.name)).getLast? with
  | none =>
    rw [getLast?_eq_none_iff, filter_eq_nil_iff] at h
    exact absurd (beq_self_eq_true _) (h p hp)
  | some q =>
    obtain ⟨hq, hname⟩ := mem_filter.1 (mem_of_getLast? h)
    rw [one q hq (beq_iff_eq.1 hname)]

theorem sortProperties_of_namesIncrease (h : NamesIncrease ps) : sortProperties ps = ps :=
  namesIncrease_sortProperties.ext h fun _ =>
    ⟨mem_of_mem_sortProperties, fun hp => mem_sortProperties hp fun _ => h.unique hp⟩

theorem below_sortProperties (h : Below n ps) : Below n (sortProperties ps) :=
  fun q hq => h q (mem_of_mem_sortProperties hq)

/-! ### Spans of a template -/

theorem noEmptyText_mergeSpans : .text "" ∉ mergeSpans spans := by
  fun_induction mergeSpans spans with
  | case1 => simp
  | case2 h spans ih => simpa using ih
  | case3 s spans r rest hr ih =>
    rw [hr] at ih
    simp only [mem_cons, not_or, TemplateSpan.text.injEq] at ih ⊢
    refine ⟨fun h => ih.1 ?_, ih.2⟩
    exact (String.append_eq_empty_iff.1 h.symm).2.symm
  | case4 s spans _ _ ih => exact ih
  | case5 s spans hs _ ih =>
    simp only [mem_cons, not_or, TemplateSpan.text.injEq]
    exact ⟨fun h => hs (by rw [← h]; rfl), ih⟩

theorem noAdjacentTexts_mergeSpans (spans : List TemplateSpan) :
    ∀ a b, ¬ [.text a, .text b] <:+: mergeSpans spans := by
  fun_induction mergeSpans spans with
  | case1 => simp
  | case2 h spans ih => simpa [infix_cons_iff, prefix_cons_iff] using ih
  | case3 s spans r rest hr ih =>
    rw [hr] at ih
    intro a b h
    rcases infix_cons_iff.1 h with h | h
    · -- A text after the joined one would follow its second half.
      exact ih r b (infix_cons_iff.2 (.inl (cons_prefix_cons.2
        ⟨rfl, (cons_prefix_cons.1 h).2⟩)))
    · exact ih a b (infix_cons_iff.2 (.inr h))
  | case4 s spans _ _ ih => exact ih
  | case5 s spans _ hr ih =>
    intro a b h
    rcases infix_cons_iff.1 h with h | h
    · obtain ⟨-, tail, ht⟩ := cons_prefix_cons.1 h
      exact hr b tail ht.symm
    · exact ih a b h

theorem below_mergeSpans (h : Below n spans) : Below n (mergeSpans spans) := by
  fun_induction mergeSpans spans with
  | case1 => exact h
  | case2 _ spans ih => exact below_cons.2 ⟨(below_cons.1 h).1, ih (below_cons.1 h).2⟩
  | case3 s spans r rest hr ih =>
    have hrest := ih (below_cons.1 h).2
    rw [hr] at hrest
    exact below_cons.2 ⟨below_text, (below_cons.1 hrest).2⟩
  | case4 s spans _ _ ih => exact ih (below_cons.1 h).2
  | case5 s spans _ _ ih => exact below_cons.2 ⟨below_text, ih (below_cons.1 h).2⟩

/-- Merged spans are canonical when they are no single text. -/
theorem canonicalSpans_mergeSpans (hnil : mergeSpans spans ≠ [])
    (htext : ∀ s, mergeSpans spans ≠ [.text s]) : CanonicalSpans (mergeSpans spans) := by
  refine ⟨noEmptyText_mergeSpans, noAdjacentTexts_mergeSpans spans, ?_⟩
  match h : mergeSpans spans with
  | [] => exact absurd h hnil
  | .hole x :: _ => exact ⟨x, .head _⟩
  | [.text s] => exact absurd h (htext s)
  | .text _ :: .hole x :: _ => exact ⟨x, .tail _ (.head _)⟩
  | .text a :: .text b :: rest =>
    exact absurd (h ▸ ⟨[], rest, rfl⟩) (noAdjacentTexts_mergeSpans spans a b)

/-! ### Members of one shape -/

namespace TypeTable

variable {t : TypeTable}
variable {a b m : TypeId} {ms : List TypeId}

theorem bothOr_comm {same same' : TypeId → TypeId → Bool} (h : ∀ a b, same a b = same' b a)
    (x y : Option TypeId) : bothOr same x y = bothOr same' y x := by
  cases x <;> cases y <;> simp [bothOr, h]

theorem pairwise_comm {α : Type} {same same' : α → α → Bool} (h : ∀ a b, same a b = same' b a)
    (l l' : List α) : pairwise same l l' = pairwise same' l' l := by
  induction l generalizing l' with
  | nil => cases l' <;> rfl
  | cons a l ih =>
    cases l' with
    | nil => rfl
    | cons b l' => simp only [pairwise, h a b, ih l']

theorem identicalWithin_comm (t : TypeTable) (fuel : Nat) (a b : TypeId) :
    t.identicalWithin fuel a b = t.identicalWithin fuel b a := by
  induction fuel generalizing a b with
  | zero => exact Bool.beq_comm
  | succ fuel ih =>
    rw [identicalWithin, identicalWithin, Bool.beq_comm (a := a)]
    congr 1
    generalize t.resolve a = x
    generalize t.resolve b = y
    cases x <;> cases y <;> try rfl
    case object.object x y =>
      simp only [identicalObjects, bothOr_comm ih x.index]
      congr 1
      refine pairwise_comm (fun p q => ?_) _ _
      simp only [ih p.type, Bool.beq_comm (a := p.name), Bool.beq_comm (a := p.optional),
        Bool.beq_comm (a := p.readonly)]
    case function.function f g =>
      simp only [identicalFunctions, bothOr_comm ih f.rest, ih f.result,
        Bool.beq_comm (a := f.kind), Bool.beq_comm (a := f.typeParams),
        Bool.beq_comm (a := f.predicate)]
      congr 4
      refine pairwise_comm (fun p q => ?_) _ _
      simp only [ih p.type, Bool.beq_comm (a := p.optional)]
    all_goals exact ih _ _

theorem identical_comm (t : TypeTable) : t.identical a b = t.identical b a :=
  identicalWithin_comm t _ a b

/-- Of two different types of one shape, both have a shape to compare. -/
theorem hasShape_of_identical (hne : a ≠ b) (h : t.identical a b = true) : t.hasShape b = true := by
  rw [identical, identicalWithin] at h
  simp only [beq_eq_false_iff_ne.2 hne, Bool.false_or] at h
  unfold hasShape
  split at h <;> simp_all

/-- What `collapse` does with the next member. -/
private def keepMember (t : TypeTable) (kept : List TypeId) (m : TypeId) : List TypeId :=
  if t.hasShape m && kept.any (t.identical · m) then kept else m :: kept

private theorem collapse_eq (t : TypeTable) (ms : List TypeId) :
    t.collapse ms = (ms.foldl t.keepMember []).reverse := rfl

private theorem sublist_keepMembers (t : TypeTable) (ms kept : List TypeId) :
    (ms.foldl t.keepMember kept).reverse.Sublist (kept.reverse ++ ms) := by
  induction ms generalizing kept with
  | nil => simp
  | cons m ms ih =>
    refine (ih (t.keepMember kept m)).trans ?_
    unfold keepMember
    split
    · exact (sublist_cons_self m ms).append_left _
    · simp

theorem collapse_sublist (t : TypeTable) (ms : List TypeId) : (t.collapse ms).Sublist ms := by
  simpa [collapse_eq] using sublist_keepMembers t ms []

private theorem not_identical_keepMembers (t : TypeTable) (ms kept : List TypeId)
    (h : ∀ a ∈ kept, ∀ b ∈ kept, a ≠ b → t.identical a b = false) :
    ∀ a ∈ ms.foldl t.keepMember kept, ∀ b ∈ ms.foldl t.keepMember kept, a ≠ b →
      t.identical a b = false := by
  induction ms generalizing kept with
  | nil => exact h
  | cons m ms ih =>
    refine ih _ ?_
    unfold keepMember
    split
    · exact h
    · rename_i hm
      -- A kept member of the shape of `m` would have dropped it.
      have new : ∀ a ∈ kept, a ≠ m → t.identical a m = false := by
        intro a ha hne
        refine Bool.eq_false_iff.2 fun hi => hm ?_
        simp only [hasShape_of_identical hne hi, Bool.true_and, any_eq_true]
        exact ⟨a, ha, hi⟩
      intro a ha b hb hne
      rcases mem_cons.1 ha with rfl | ha' <;> rcases mem_cons.1 hb with rfl | hb'
      · exact absurd rfl hne
      · rw [identical_comm]
        exact new b hb' (Ne.symm hne)
      · exact new a ha' hne
      · exact h a ha' b hb' hne

/-- **Collapsing leaves no two members of one shape.** -/
theorem not_identical_of_mem_collapse
    (ha : a ∈ t.collapse ms) (hb : b ∈ t.collapse ms) (hne : a ≠ b) : t.identical a b = false := by
  rw [collapse_eq, mem_reverse] at ha hb
  exact not_identical_keepMembers t ms [] (fun _ h => nomatch h) a ha b hb hne

private theorem subset_keepMembers (t : TypeTable) (ms kept : List TypeId) :
    kept ⊆ ms.foldl t.keepMember kept := by
  induction ms generalizing kept with
  | nil => exact List.Subset.refl kept
  | cons m ms ih =>
    refine List.Subset.trans ?_ (ih (t.keepMember kept m))
    unfold keepMember
    split
    · exact List.Subset.refl kept
    · exact subset_cons_self m kept

/-- Collapsing keeps a member of every shape, one that stands before all others of it. -/
private theorem first_keepMembers (t : TypeTable) {R : TypeId → TypeId → Prop} (refl : ∀ m, R m m)
    (ms kept : List TypeId) (h : ms.Pairwise R) (hkept : ∀ k ∈ kept, ∀ m ∈ ms, R k m)
    (hm : m ∈ ms) : ∃ k ∈ ms.foldl t.keepMember kept, (k = m ∨ t.identical k m = true) ∧ R k m := by
  induction ms generalizing kept with
  | nil => cases hm
  | cons x ms ih =>
    rcases mem_cons.1 hm with rfl | hm
    · by_cases hseen : (t.hasShape m && kept.any (t.identical · m)) = true
      · obtain ⟨k, hk, hi⟩ := any_eq_true.1 (Bool.and_eq_true_iff.1 hseen).2
        exact ⟨k, subset_keepMembers t (m :: ms) kept hk, .inr hi, hkept k hk m (.head _)⟩
      · refine ⟨m, subset_keepMembers t ms (t.keepMember kept m) ?_, .inl rfl, refl m⟩
        rw [keepMember, if_neg hseen]
        exact .head _
    · obtain ⟨hx, hms⟩ := pairwise_cons.1 h
      refine ih _ hms (fun k hk y hy => ?_) hm
      unfold keepMember at hk
      split at hk
      · exact hkept k hk y (.tail _ hy)
      · rcases mem_cons.1 hk with rfl | hk
        · exact hx y hy
        · exact hkept k hk y (.tail _ hy)

theorem exists_mem_collapse (h : m ∈ ms) : ∃ k ∈ t.collapse ms, k = m ∨ t.identical k m = true := by
  obtain ⟨k, hk, hm, -⟩ := first_keepMembers t (R := fun _ _ => True) (fun _ => trivial) ms []
    (pairwise_of_forall fun _ _ => trivial) (fun _ _ _ _ => trivial) h
  exact ⟨k, by rwa [collapse_eq, mem_reverse], hm⟩

/-- Of types in order, collapsing keeps the first of every shape. -/
theorem exists_mem_collapse_le (h : Increasing ms) (hm : m ∈ ms) :
    ∃ k ∈ t.collapse ms, (k = m ∨ t.identical k m = true) ∧ k.index ≤ m.index := by
  obtain ⟨k, hk, hkm⟩ := first_keepMembers t (R := (·.index ≤ ·.index)) (fun _ => Nat.le_refl _) ms []
    (h.imp Nat.le_of_lt) (fun _ hk => nomatch hk) hm
  exact ⟨k, by rwa [collapse_eq, mem_reverse], hkm⟩

end TypeTable

/-! ### Growth

Two tables agree below `n` when they have the same nodes there; the nodes below
`n` are closed when their types are below `n` again. -/

namespace TypeTable

/-- The nodes below `n` hold types below `n`, and are the same in `t'`. -/
structure AgreeBelow (n : Nat) (t t' : TypeTable) : Prop where
  closed : ∀ {id : TypeId}, Below n id → Below n (t.resolve id)
  resolve : ∀ {id : TypeId}, Below n id → t'.resolve id = t.resolve id
  limits : t'.limits = t.limits

variable {n : Nat} {t t' : TypeTable}

theorem bothOr_congr {same same' : TypeId → TypeId → Bool}
    (h : ∀ a b, Below n a → Below n b → same' a b = same a b) {x y : Option TypeId}
    (hx : Below n x) (hy : Below n y) : bothOr same' x y = bothOr same x y := by
  cases x <;> cases y <;> simp_all [bothOr]

theorem pairwise_congr {α : Type} {same same' : α → α → Bool} {l l' : List α}
    (h : ∀ a ∈ l, ∀ b ∈ l', same' a b = same a b) : pairwise same' l l' = pairwise same l l' := by
  induction l generalizing l' with
  | nil => cases l' <;> rfl
  | cons a l ih =>
    cases l' with
    | nil => rfl
    | cons b l' =>
      rw [pairwise, pairwise, h a (.head _) b (.head _),
        ih fun c hc d hd => h c (.tail _ hc) d (.tail _ hd)]

theorem AgreeBelow.identicalWithin (h : AgreeBelow n t t') (fuel : Nat) {a b : TypeId}
    (ha : Below n a) (hb : Below n b) :
    t'.identicalWithin fuel a b = t.identicalWithin fuel a b := by
  induction fuel generalizing a b with
  | zero => rfl
  | succ fuel ih =>
    rw [TypeTable.identicalWithin, TypeTable.identicalWithin, h.resolve ha, h.resolve hb]
    congr 1
    have hx := h.closed ha
    have hy := h.closed hb
    generalize t.resolve a = x at hx
    generalize t.resolve b = y at hy
    have ih' := fun a b ha hb => ih (a := a) (b := b) ha hb
    cases x <;> cases y <;> try rfl
    case object.object x y =>
      simp only [identicalObjects, bothOr_congr ih' hx.2 hy.2]
      rw [pairwise_congr fun p hp q hq => ?_]
      simp only [ih (a := p.type) (hx.1 p hp) (hy.1 q hq)]
    case function.function f g =>
      simp only [identicalFunctions, bothOr_congr ih' hx.2.2.1 hy.2.2.1, ih hx.2.2.2.1 hy.2.2.2.1]
      rw [pairwise_congr fun p hp q hq => ?_]
      simp only [ih (a := p.type) (hx.2.1 p hp) (hy.2.1 q hq)]
    all_goals exact ih hx hy

theorem AgreeBelow.identical (h : AgreeBelow n t t') {a b : TypeId} (ha : Below n a)
    (hb : Below n b) : t'.identical a b = t.identical a b := by
  rw [TypeTable.identical, h.limits]
  exact h.identicalWithin _ ha hb

/-- **The form of a node depends on the nodes of its types only.** -/
theorem Canonical.congr {ty : Ty} (h : AgreeBelow n t t') (hty : Below n ty)
    (hc : t.Canonical ty) : t'.Canonical ty := by
  cases ty with
  | union ms =>
    have hr : ∀ m ∈ ms, t'.resolve m = t.resolve m := fun m hm => h.resolve (hty m hm)
    refine ⟨hc.several, hc.increasing, ?_, ?_, ?_, ?_, ?_, hc.notBothBooleans, ?_⟩
    · exact fun m hm => hr m hm ▸ hc.notUnion m hm
    · exact fun m hm => hr m hm ▸ hc.notNever m hm
    · exact fun m hm => hr m hm ▸ hc.notAny m hm
    · exact fun m hm => hr m hm ▸ hc.notUnknown m hm
    · exact fun m hm l hl p hp => hr p hp ▸ hc.uncovered m hm l (hr m hm ▸ hl) p hp
    · exact fun a ha b hb hne => h.identical (hty a ha) (hty b hb) ▸ hc.distinct a ha b hb hne
  | intersection ms =>
    have hr : ∀ m ∈ ms, t'.resolve m = t.resolve m := fun m hm => h.resolve (hty m hm)
    refine ⟨hc.several, hc.increasing, ?_, ?_, ?_, ?_, ?_, ?_, ?_, ?_⟩
    · exact fun m hm => hr m hm ▸ hc.notIntersection m hm
    · exact fun m hm => hr m hm ▸ hc.notUnknown m hm
    · exact fun m hm => hr m hm ▸ hc.notNever m hm
    · exact fun m hm => hr m hm ▸ hc.notAny m hm
    · exact fun a ha b hb oa ob => hc.oneObject a ha b hb (hr a ha ▸ oa) (hr b hb ▸ ob)
    · exact fun a ha b hb oa ob => hc.oneAtom a ha b hb (hr a ha ▸ oa) (hr b hb ▸ ob)
    · exact fun a ha b hb na => hr b hb ▸ hc.inhabited a ha b hb (hr a ha ▸ na)
    · intro m hm alternatives hu hleast
      refine hc.undistributed m hm alternatives (hr m hm ▸ hu) fun m' hm' hu' => ?_
      exact hleast m' hm' (hr m' hm' ▸ hu')
  | promise inner =>
    intro i hi
    exact hc i (h.resolve hty ▸ hi)
  | object | template => exact hc
  | _ => trivial

end TypeTable

end GradualTyping
