/-
# Reduction is safe

Templates and case changes, patterns and what they bind, conditionals and mapped
types: the nodes that evaluation replaces, other than references and utilities.
-/

import GradualTyping.Proofs.Sound.Keys

namespace GradualTyping

open TypeTable List Substitution

variable {ops : Operations} {t : TypeTable}

/-! ### What a pattern binds -/

theorem Binding.below_add {n : Nat} {b : Binding} {candidate : TypeId} {contravariant : Bool}
    (hb : Below n b) (hc : Below n candidate) : Below n (b.add candidate contravariant) := by
  unfold Binding.add
  split
  · exact ⟨hb.1, hb.2.1, below_addOnce hb.2.2 hc⟩
  · exact ⟨hb.1, below_addOnce hb.2.1 hc, hb.2.2⟩

theorem Bindings.below_add {n : Nat} {placeholder candidate : TypeId} {contravariant : Bool}
    {bs : Bindings} (hp : Below n placeholder) (hc : Below n candidate) (hbs : Below n bs) :
    Below n (Bindings.add placeholder candidate contravariant bs) := by
  fun_induction Bindings.add placeholder candidate contravariant bs with
  | case1 =>
    exact below_singleton.2 (Binding.below_add ⟨hp, below_nil, below_nil⟩ hc)
  | case2 b bs h =>
    exact below_cons.2 ⟨Binding.below_add (below_cons.1 hbs).1 hc,
      (below_cons.1 hbs).2⟩
  | case3 b bs h ih => exact below_cons.2 ⟨(below_cons.1 hbs).1, ih (below_cons.1 hbs).2⟩

namespace Reduction

variable {contravariant : Bool} {pattern : TypeId}
variable {spans : List TemplateSpan}

theorem safe_bind (s : t.Sound) {placeholder candidate : TypeId}
    (hp : t.Has placeholder) (hc : t.Has candidate) :
    Safe t (modifyThe Bindings (Bindings.add placeholder candidate contravariant) : MatchM Unit) :=
  .modifyThe s fun _ hbs => Bindings.below_add hp hc hbs

/-! ### Templates -/

theorem safe_expand (hops : ops.Safe) (limit : Nat)
    (heads : List String) (s : t.Sound) (hspans : t.Has spans) :
    Safe t (expand ops limit spans heads) := by
  induction spans generalizing t heads with
  | nil => exact .pure s trivial
  | cons span spans ih =>
    obtain ⟨hspan, hrest⟩ := below_cons.1 hspans
    cases span with
    | text x => exact ih _ s hrest
    | hole h =>
      unfold expand
      refine (hops.evaluate s (below_hole.1 hspan)).bind fun t1 hole s1 r1 hh => .read rfl ?_
      split
      · split
        · exact .pure s1 trivial
        · exact ih _ s1 (r1 hrest)
      · refine .read rfl ?_
        split
        · exact .pure s1 trivial
        · exact .pure s1 trivial

section Settles

variable {P : TypeTable → TypeId → Prop} (hP : Inherited P) {id : TypeId}

include hP

theorem settles_template (hops : ops.Safe) (s : t.Sound) {spans : List TemplateSpan}
    (hid : t.Has id) (hspans : t.Has spans) : Settles P t id (template ops id spans) := by
  unfold template
  refine .read rfl ?_
  refine (safe_expand hops _ _ s hspans).bind fun t1 expansion s1 r1 _ => ?_
  split
  · exact (hP.unionOf_mapM s1 fun x _ _ s2 _ => hP.stringLiteral s2).settles
  · exact settles_self s1 (r1 hid)
  · exact (hP.fixed s1 (i := 3) rfl rfl).settles

theorem settles_changeCase (hops : ops.Yielding P t) (s : t.Sound) {inner evaluated : TypeId}
    (change : CaseChange) (hid : t.Has id) (he : t.Has evaluated ∧ P t evaluated) :
    Settles P t id (changeCase ops id change inner evaluated) := by
  unfold changeCase
  refine .read rfl ?_
  split
  · exact (hP.stringLiteral s).settles
  · next ms hms =>
    refine (hP.unionOf_mapM s fun m hm t1 s1 r1 => ?_).settles
    refine (safe_caseMapped s1 change (r1 (s.below_node hms m hm))).bind ?_
    exact fun _ _ s2 r2 h => hops.yields s2 (r1.trans r2) h
  · exact (hP.fixed s (i := 3) rfl rfl).settles
  · exact (hP.fixed s (i := 0) rfl rfl).settles
  · exact (hP.fixed s (i := 2) rfl rfl).settles
  · next hstring hunion hprimitive hany hnever =>
    split
    · exact settles_self s hid
    -- The new case change waits for what the old one came to.
    have made : Leaves Runs t (intern (.caseMapped change evaluated)) _ :=
      safe_caseMapped s change he.1
    refine ⟨made.sound, made.related, made.post, .inr (hP.delayed
      (resolve_of_get? s.indexed.get?_insert) ?_ (hP.runs s made.related he.1 he.2))⟩
    rw [made.related.resolve he.1]
    unfold Ty.delaysCase
    split
    · next h => exact absurd h (hstring _)
    · next h => exact absurd h (hunion _)
    · next h => exact absurd h hprimitive
    · next h => exact absurd h hany
    · next h => exact absurd h hnever
    · rfl

theorem settles_caseMapped (hops : ops.Yielding P t) (s : t.Sound) {inner : TypeId}
    (change : CaseChange) (hid : t.Has id) (hinner : t.Has inner) :
    Settles P t id (caseMapped ops id change inner) :=
  (hops.yields s (.refl t) hinner).bind fun _ _ s1 r1 he =>
    settles_changeCase hP (hops.later r1) s1 change (r1 hid) he

end Settles

theorem below_fill {n : Nat} (text : List Char) (h : Below n spans) :
    Below n (fill spans text) := by
  fun_induction fill spans text with
  | case1 => exact below_nil
  | case2 _ spans _ _ _ ih => exact ih (below_cons.1 h).2
  | case3 => exact below_nil
  | case4 _ spans _ _ _ ih =>
    exact below_cons.2 ⟨⟨below_hole.1 (below_cons.1 h).1, trivial⟩, ih (below_cons.1 h).2⟩
  | case5 => exact below_nil

theorem safe_matchTemplate (s : t.Sound) (text : String)
    (h : t.Has spans) : Safe t (matchTemplate spans text) := by
  refine Tabled.Keeps.forM s fun p hp t1 s1 r1 => .readLift s1 rfl ?_
  have hhole := r1 (below_fill _ h p hp).1
  split
  · refine (safe_stringLiteral s1).lift.bind fun _ literal s2 r2 hl => ?_
    exact safe_bind s2 (r2 hhole) hl
  · exact .pure s1 trivial

/-! ### Patterns -/

theorem below_spreadPlaceholder? (s : t.Sound) {rest placeholder : TypeId}
    (h : spreadPlaceholder? t rest = some placeholder) : t.Has placeholder := by
  unfold spreadPlaceholder? at h
  split at h
  · next object index hres =>
    have ho : t.Has object := (s.below_node hres).1
    split at h
    · split at h
      · exact Option.some.inj h ▸ ho
      · cases h
    · cases h
  · cases h

theorem safe_remainingParams (s : t.Sound) {f : Signature} {start : Nat} (hf : t.Has f) :
    Safe t (remainingParams f start) :=
  safe_tupleOf s (Bounded.Below.map fun p hp => hf.2.1.drop start p hp) hf.2.2.1

section

variable (hops : ops.Safe) (s : t.Sound)
include hops s

theorem safe_matchRest {rest : TypeId} (start : Nat)
    {source : Signature} (contravariant : Bool) (hrest : t.Has rest)
    (hsource : t.Has source) : Safe t (matchRest ops rest start source contravariant) := by
  unfold matchRest
  refine .readLift s rfl ?_
  split
  · next placeholder hp =>
    have hp := below_spreadPlaceholder? s hp
    refine (safe_remainingParams s hsource).lift.bind fun _ tuple s1 r1 ht => ?_
    exact safe_bind s1 (r1 hp) ht
  · split
    · next sourceRest hsr => exact hops.matchPattern _ s hrest (hsource.2.2.1 sourceRest hsr)
    · exact .pure s trivial

theorem safe_expandPattern {source : TypeId} (hp : t.Has pattern) (hs : t.Has source) :
    Safe t (matchNodes.expandPattern ops pattern source contravariant) := by
  unfold matchNodes.expandPattern
  refine (hops.evaluate s hp).lift.bind fun t1 expanded s1 r1 he => ?_
  split
  · exact .pure s1 trivial
  · exact hops.matchPattern _ s1 he (r1 hs)

/-- Matching pairs of parts, one after the other. -/
theorem safe_matchPairs {α : Type} {xs : List α} {f g : α → TypeId} (hf : ∀ x ∈ xs, t.Has (f x))
    (hg : ∀ x ∈ xs, t.Has (g x)) :
    Safe t (xs.forM fun x => ops.matchPattern (f x) (g x) contravariant) :=
  .forM s fun x hx _ s' r' =>
    hops.matchPattern contravariant s' (r' (hf x hx)) (r' (hg x hx))

theorem safe_matchNodes {source : TypeId}
    (contravariant : Bool) {patternTy sourceTy : Ty} (hp : t.Has pattern)
    (hs : t.Has source) (hpt : t.Has patternTy) (hst : t.Has sourceTy) :
    Safe t (matchNodes ops pattern source contravariant patternTy sourceTy) := by
  unfold matchNodes
  split
  · exact hops.matchPattern _ s hpt hst
  · refine (safe_unionOf s (below_types hst)).lift.bind fun _ _ s1 r1 hj => ?_
    exact hops.matchPattern _ s1 (r1.below (a := (_ : TypeId)) hpt) hj
  · next p q =>
    have hzip := Bounded.Below.zip hpt.1 hst.1
    refine (safe_matchPairs hops s (fun x hx => (hzip x hx).1)
      fun x hx => (hzip x hx).2).bind fun t1 _ s1 r1 _ => ?_
    split
    · next pr qr hpr hqr =>
      exact hops.matchPattern _ s1 (r1 (hpt.2 pr hpr)) (r1 (hst.2 qr hqr))
    · exact .pure s1 trivial
  · refine Tabled.Keeps.forM s fun prop hprop t1 s1 r1 => ?_
    split
    · next type htype =>
      exact hops.matchPattern _ s1 (r1 (hpt.1 prop hprop))
        (r1 (below_read? hst type htype))
    · exact .pure s1 trivial
  · next p q =>
    have hzip := Bounded.Below.zip hpt.2.1 hst.2.1
    refine (safe_matchPairs hops s (fun x hx => (hzip x hx).1)
      fun x hx => (hzip x hx).2).bind fun t1 _ s1 r1 _ => ?_
    have result : ∀ t2, t2.Sound → t1.Runs t2 →
        Safe t2 (ops.matchPattern p.result q.result contravariant) := fun t2 s2 r2 =>
      hops.matchPattern _ s2 ((r1.trans r2) hpt.2.2.2.1) ((r1.trans r2) hst.2.2.2.1)
    dsimp only
    split
    · next rest hrest =>
      refine (safe_matchRest hops s1 _ _ (r1 (hpt.2.2.1 rest hrest))
        (r1.below (a := q) hst)).bind fun t2 _ s2 r2 _ => result t2 s2 r2
    · exact result t1 s1 (.refl t1)
  · exact hops.matchPattern _ s hpt hst
  · split
    · have hzip := Bounded.Below.zip hpt hst
      exact safe_matchPairs hops s (fun x hx => (hzip x hx).1) fun x hx => (hzip x hx).2
    · exact safe_expandPattern hops s hp hs
  · exact safe_expandPattern hops s hp hs
  · exact safe_matchTemplate s _ hpt
  · exact .pure s trivial

theorem safe_matchStep {source : TypeId} (hp : t.Has pattern) (hs : t.Has source) :
    Safe t (matchStep ops pattern source contravariant) := by
  refine Guarding.guarded s trivial (.readLift s.deeper rfl ?_)
  split
  · exact safe_bind s.deeper hp hs
  · split
    · exact .pure s.deeper trivial
    · refine (hops.evaluate s.deeper hs).lift.bind fun t1 source s1 r1 hs => .readLift s1 rfl ?_
      have hp := r1.below (a := pattern) hp
      split
      · next ms hms =>
        split
        · exact .pure s1 trivial
        · exact Tabled.Keeps.forM s1 fun m hm _ s2 r2 =>
            hops.matchPattern _ s2 (r2 hp) (r2 (s1.below_node hms m hm))
      · exact safe_matchNodes hops s1 _ hp hs (r1 (s.deeper.below_resolve pattern))
          (s1.below_resolve source)

end

/-! ### Conditionals -/

theorem safe_solve (s : t.Sound) {b : Binding} (hb : t.Has b) : Safe t (Binding.solve b) := by
  unfold Binding.solve
  split
  · exact safe_unionOf s hb.2.1
  · split
    · exact safe_intersectionOf s hb.2.2
    · exact .pure s s.below_unknown

theorem parts_subset_ids (ty : Ty) : ty.parts ⊆ ty.ids := by
  intro id hid
  cases ty with
  | tuple shape => exact hid
  | function f =>
    simp only [Ty.parts, Ty.ids, Signature.parts, Signature.ids, append_assoc] at *
    exact mem_append_right _ hid
  | mapped m => exact mem_cons_of_mem _ hid
  | template spans =>
    obtain ⟨span, hspan, h⟩ := mem_filterMap.1 hid
    refine mem_flatMap.2 ⟨span, hspan, ?_⟩
    cases span with
    | text x => cases h
    | hole x => exact mem_singleton.2 (Option.some.inj h).symm
  | any | unknown | never | primitive | literal | param | var | infer =>
    exact absurd hid not_mem_nil
  | _ => exact hid

theorem patternParts_subset_parts (ty : Ty) : patternParts ty ⊆ ty.parts := by
  intro id hid
  cases ty with
  | function f => exact mem_append_left _ hid
  | conditional | mapped | caseMapped => exact absurd hid not_mem_nil
  | _ => exact hid

theorem below_placeholdersWithin (s : t.Sound) (fuel : Nat) {out : List TypeId} {id : TypeId}
    (hout : t.Has out) (hid : t.Has id) : t.Has (t.placeholdersWithin fuel out id) := by
  induction fuel generalizing out id with
  | zero => exact hout
  | succ fuel ih =>
    unfold placeholdersWithin
    split
    · exact below_addOnce hout hid
    · refine Bounded.Below.foldl hout fun out hout part hpart => ih hout ?_
      exact below_iff_ids.1 (s.below_resolve id) part
        (parts_subset_ids _ (patternParts_subset_parts _ hpart))

theorem safe_placeholderSubstitution (hops : ops.Safe) (s : t.Sound) {check : TypeId}
    (hp : t.Has pattern) (hc : t.Has check) :
    Safe t (placeholderSubstitution ops pattern check) := by
  unfold placeholderSubstitution
  refine ((hops.matchPattern false s hp hc).run below_nil).bind fun t1 matched s1 r1 hm => ?_
  refine (Tabled.Keeps.foldlM (I := fun t' σ => t'.Has σ) s1 below_empty
    fun b hb t2 σ s2 r2 hσ => ?_).bind fun t2 solved s2 r2 hsolved => .read rfl (.pure s2 ?_)
  · have hb := r2 (hm.2 b hb)
    refine (safe_solve s2 hb).bind fun t3 type s3 r3 ht => .pure s3 ?_
    exact below_insert (r3 hσ) (r3 hb.1) ht
  · have hps := below_placeholdersWithin s2 (t2.limits.maxDepth + 1) below_nil
      ((r1.trans r2) hp)
    refine Bounded.Below.foldl hsolved fun σ hσ p hmem => ?_
    split
    · exact hσ
    · exact below_insert hσ (hps p hmem) s2.below_unknown

section Settles

variable {P : TypeTable → TypeId → Prop}

theorem yields_decideConditional (hops : ops.Yielding P t) (s : t.Sound) {check : TypeId}
    {c : Conditional} (hcheck : t.Has check) (hc : t.Has c) :
    Yields P t (decideConditional ops check c) := by
  obtain ⟨-, hpattern, hyes, hno⟩ := hc
  unfold decideConditional
  refine (safe_placeholderSubstitution hops.toSafe s hpattern hcheck).bind fun t1 σ s1 r1 hσ => ?_
  refine (hops.toSafe.substitute s1 hσ (r1 hpattern)).bind fun t2 pattern s2 r2 hp => ?_
  have r2' := r1.trans r2
  split
  · refine (hops.toSafe.substitute s2 (r2 hσ) (r2' hyes)).bind
      fun t3 yes s3 r3 hy => ?_
    refine (safe_unionOf s3 (below_two hy ((r2'.trans r3) hno))).bind ?_
    exact fun _ _ s4 r4 h => hops.yields s4 ((r2'.trans r3).trans r4) h
  · refine (hops.toSafe.subtype s2 (r2' hcheck) hp).bind fun t3 fits s3 r3 _ => ?_
    have r3' := r2'.trans r3
    split
    · refine (hops.toSafe.substitute s3 ((r2.trans r3) hσ) (r3' hyes)).bind ?_
      exact fun _ _ s4 r4 h => hops.yields s4 (r3'.trans r4) h
    · exact hops.yields s3 r3' (r3' hno)

theorem settles_conditional (hP : Inherited P) (hops : ops.Yielding P t) (s : t.Sound) {id : TypeId}
    {c : Conditional} (hid : t.Has id) (hc : t.Has c) : Settles P t id (conditional ops id c) := by
  unfold conditional
  refine (hops.yields s (.refl t) hc.1).bind fun t1 check s1 r1 hcheck => .read rfl ?_
  split
  · exact (hP.fixed s1 (i := 2) rfl rfl).settles
  · next ms hms =>
    refine (hP.unionOf_mapM s1 fun m hm t2 s2 r2 => ?_).settles
    have hc := (r1.trans r2) hc
    refine (safe_conditional (c := { c with check := m, distributive := false }) s2
      ⟨r2 (s1.below_node hms m hm), hc.2⟩).bind ?_
    exact fun _ _ s3 r3 h => hops.yields s3 ((r1.trans r2).trans r3) h
  · refine .read rfl ?_
    split
    · exact settles_self s1 (r1 hid)
    refine .read rfl ?_
    split
    · exact settles_self s1 (r1 hid)
    · exact (yields_decideConditional (hops.later r1) s1 hcheck.1 (r1 hc)).settles

end Settles

/-! ### Mapped types -/

theorem safe_instantiateTemplate (hops : ops.Safe) (s : t.Sound) {m : MappedShape} {key : TypeId}
    {source : Option (TypeId × TypeId)} (hm : t.Has m) (hkey : t.Has key)
    (hsource : t.Has source) : Safe t (instantiateTemplate ops m key source) := by
  unfold instantiateTemplate
  have hσ : t.Has (({} : Substitution).insert m.param key) :=
    below_insert below_empty hm.1 hkey
  refine (hops.substitute s ?_ hm.2.2).bind fun t1 value s1 _ hv => .read rfl ?_
  · split
    · next whole member =>
      obtain ⟨hw, hmem⟩ := below_some.1 hsource
      split
      · exact hσ
      · exact below_insert hσ hw hmem
    · exact hσ
  · split
    · exact .pure s1 hv
    · exact .pure s1 hv
    · exact hops.evaluate s1 hv

theorem safe_addKey (hops : ops.Safe) (s : t.Sound) {m : MappedShape} {fields : Fields}
    {key : TypeId} (hm : t.Has m) (hf : t.Has fields) (hkey : t.Has key) :
    Safe t (addKey ops m fields key) := by
  have value : Safe t (instantiateTemplate ops m key none) :=
    safe_instantiateTemplate hops s hm hkey below_none
  unfold addKey
  refine .read rfl ?_
  split
  · refine value.bind fun t1 type s1 r1 ht => .pure s1 ?_
    exact ⟨below_append.2 ⟨r1 hf.1, below_singleton.2 ht⟩, r1 hf.2⟩
  · exact value.bind fun t1 type s1 r1 ht => .pure s1 ⟨r1 hf.1, below_some.2 ht⟩
  · exact value.bind fun t1 type s1 r1 ht => .pure s1 ⟨r1 hf.1, below_some.2 ht⟩
  · exact .pure s hf

section Settles

variable {P : TypeTable → TypeId → Prop} (hP : Inherited P) {id : TypeId} {m : MappedShape}

include hP

/-- A mapped type over a type is built, or it is that type. -/
theorem yields_mapOver (hops : ops.Safe) (s : t.Sound) {source target : TypeId}
    (hm : t.Has m) (hs : t.Has source) (ht : t.Has target ∧ P t target) :
    Yields P t (mapOver ops m source target) := by
  have value : ∀ {t' key}, t'.Sound → t.Runs t' → t'.Has key →
      Safe t' (instantiateTemplate ops m key (some (source, target))) := fun s' r' hkey =>
    safe_instantiateTemplate hops s' (r' hm) hkey (below_some.2 ⟨r' hs, r' ht.1⟩)
  unfold mapOver
  refine .read rfl ?_
  dsimp only
  split
  · next o ho =>
    refine Tabled.Keeps.bind (.mapM s fun p hp t1 s1 r1 => ?_) fun t1 ps s1 r1 hps => ?_
    · refine (safe_stringLiteral s1).bind fun _ key s2 r2 hkey => ?_
      exact (value s2 (r1.trans r2) hkey).bind fun _ _ s3 _ htype => .pure s3 htype
    · split
      · refine ((value s1 r1 (s1.below_primitive .string)).map
          fun _ _ _ _ h => below_some.2 h).bind fun t2 index s2 r2 hi => ?_
        exact hP.objectOf s2 (r2 hps) hi
      · exact hP.objectOf s1 hps below_none
  · exact (value s (.refl t) (s.below_primitive .number)).bind fun _ _ s1 _ h => hP.arrayOf s1 h
  · next shape hshape =>
    refine Tabled.Keeps.bind (.mapM s fun e he t1 s1 r1 => ?_) fun t1 es s1 r1 hes => ?_
    · refine (safe_numberLiteral s1 _).bind fun _ key s2 r2 hkey => ?_
      exact (value s2 (r1.trans r2) hkey).bind fun _ _ s3 _ htype => .pure s3 htype
    · split
      · refine ((value s1 r1 (s1.below_primitive .number)).map
          fun _ _ _ _ h => below_some.2 h).bind fun t2 rest s2 r2 hr => ?_
        exact hP.tupleOf s2 (r2 hes) hr
      · exact hP.tupleOf s1 hes below_none
  · exact hP.fixed s (i := 0) rfl rfl
  · exact .pure s ht

theorem settles_mapKeysOf (hops : ops.Yielding P t) (s : t.Sound) {source : TypeId}
    (hid : t.Has id) (hm : t.Has m) (hs : t.Has source) :
    Settles P t id (mapKeysOf ops id m source) := by
  unfold mapKeysOf
  refine (hops.yields s (.refl t) hs).bind fun t1 evaluated s1 r1 he => .read rfl ?_
  split
  · next ms hms =>
    refine (hP.unionOf_mapM s1 fun target ht t2 s2 r2 => ?_).settles
    have r2' := r1.trans r2
    have hbelow := s1.below_node hms target ht
    refine yields_mapOver hP hops.toSafe s2 (r2' hm) (r2' hs) ⟨r2 hbelow, ?_⟩
    have hmember : target ∈ t1.unionMembers evaluated := by
      rwa [TypeTable.unionMembers, show t1.resolve evaluated = .union ms from hms]
    exact hP.runs s1 r2 hbelow (hP.member he.2 hmember)
  · exact settles_self s1 (r1 hid)
  · refine .read rfl ?_
    split
    · exact settles_self s1 (r1 hid)
    · exact (yields_mapOver hP hops.toSafe s1 (r1 hm) (r1 hs) he).settles

theorem settles_mapped (hops : ops.Yielding P t) (s : t.Sound) (hid : t.Has id)
    (hm : t.Has m) : Settles P t id (mapped ops id m) := by
  unfold mapped
  refine .read rfl ?_
  split
  · next source hsource => exact settles_mapKeysOf hP hops s hid hm (s.below_node hsource)
  · refine (hops.toSafe.evaluate s hm.2.1).bind fun t1 keys s1 r1 hk => .read rfl ?_
    split
    · exact settles_self s1 (r1 hid)
    refine .read rfl ?_
    have hms := s1.below_unionMembers hk
    refine (Tabled.Keeps.foldlM (I := fun t' (fields : Fields) => t'.Has fields) s1
      ⟨below_nil, below_none⟩ fun key hkey t2 fields s2 r2 hf => ?_).bind
      fun t2 fields s2 _ hf => (hP.objectOf s2 hf.1 hf.2).settles
    exact safe_addKey hops.toSafe s2 ((r1.trans r2) hm) hf (r2 (hms key hkey))

end Settles

end Reduction

end GradualTyping
