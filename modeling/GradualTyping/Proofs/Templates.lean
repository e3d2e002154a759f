/-
# Templates

A template denotes the cross product of the texts of its spans.  The expansion
multiplies the product out from the left and compares its size with the limit at
each hole; no list of texts is empty, so the sizes grow, and the comparisons
together are the one comparison of the whole product (`Reduction.expand_eq`).
Evaluation gives the union of these texts, or `string`
(`TypeTable.Reachable.evaluate_template`), for a template that is not remembered
and that the guard lets pass; the holes are evaluated while it is under way.
-/

import GradualTyping.Proofs.Memory

namespace GradualTyping

open TypeTable List

namespace Reduction

/-- The texts that take one text of each list, in order. -/
def crossProduct : List (List String) → List String
  | [] => [""]
  | texts :: rest => concatenations texts (crossProduct rest)

/-- The texts of each span of a template.  The holes are evaluated from left to right, and each
has finitely many texts and at least one. -/
inductive Alternatives (ops : Operations) :
    List TemplateSpan → TypeTable → List (List String) → TypeTable → Prop
  | nil {t : TypeTable} : Alternatives ops [] t [] t
  | text {s : String} {spans : List TemplateSpan} {t t' : TypeTable} {alts : List (List String)} :
    Alternatives ops spans t alts t' → Alternatives ops (.text s :: spans) t ([s] :: alts) t'
  | hole {h : TypeId} {spans : List TemplateSpan} {t t' : TypeTable} {texts : List String}
      {alts : List (List String)} :
    texts? (ops.evaluate h t).2 (ops.evaluate h t).1 = some texts → texts ≠ [] →
    Alternatives ops spans (ops.evaluate h t).2 alts t' →
    Alternatives ops (.hole h :: spans) t (texts :: alts) t'

theorem concatenations_singleton (heads : List String) (s : String) :
    concatenations heads [s] = heads.map (· ++ s) := by
  exact flatMap_pure_eq_map _ _

theorem concatenations_assoc (a b c : List String) :
    concatenations (concatenations a b) c = concatenations a (concatenations b c) := by
  simp [concatenations, flatMap_assoc, flatMap_map, map_flatMap, String.append_assoc,
    Function.comp_def]

theorem length_concatenations (heads tails : List String) :
    (concatenations heads tails).length = heads.length * tails.length := by
  simp [concatenations]

variable {ops : Operations} {limit : Nat} {spans : List TemplateSpan} {t t' : TypeTable}
  {alts : List (List String)}

theorem Alternatives.prod_pos (h : Alternatives ops spans t alts t') :
    0 < (alts.map List.length).prod := by
  induction h with
  | nil => exact Nat.one_pos
  | text _ ih => simpa using ih
  | hole _ nonempty _ ih =>
    rw [map_cons, prod_cons]
    exact Nat.mul_pos (length_pos_iff.2 nonempty) ih

/-- **The limit is compared with the whole product.**  After the texts `heads`, spans expand to
the cross product of their texts if there are not more than the limit, and to any string
otherwise. -/
theorem expand_eq (hl : limit < UInt64.size - 1) (h : Alternatives ops spans t alts t') :
    ∀ heads : List String, heads.length ≤ limit ∨ (∃ h, .hole h ∈ spans) →
      if heads.length * (alts.map List.length).prod ≤ limit then
        expand ops limit spans heads t = (.texts (concatenations heads (crossProduct alts)), t')
      else (expand ops limit spans heads t).1 = .widened := by
  induction h with
  | nil =>
    intro heads within
    rw [if_pos (by simpa using within), crossProduct, concatenations_singleton]
    simp only [String.append_empty, map_id']
    rfl
  | @text s _ _ _ _ _ ih =>
    intro heads within
    have tail := ih (concatenations heads [s]) (by simpa [length_concatenations] using within)
    rw [length_concatenations, mul_assoc, concatenations_assoc, concatenations_singleton] at tail
    exact tail
  | @hole x spans t t' texts alts htexts nonempty rest ih =>
    intro heads _
    -- The size of the product so far is not cut off, since the limit is below the largest size.
    have size : limit < productSize heads.length texts.length ↔ limit < heads.length * texts.length :=
      lt_min_iff.trans (and_iff_left hl)
    have step : expand ops limit (.hole x :: spans) heads t =
        if limit < productSize heads.length texts.length then (.widened, (ops.evaluate x t).2)
        else expand ops limit spans (concatenations heads texts) (ops.evaluate x t).2 := by
      have run : ops.evaluate x t = ((ops.evaluate x t).1, (ops.evaluate x t).2) := rfl
      rw [expand, bind_of_eq run, get_bind, htexts]
      dsimp only
      split <;> rfl
    rw [step, map_cons, prod_cons, ← mul_assoc]
    by_cases large : limit < heads.length * texts.length
    · rw [if_pos (size.2 large), if_neg]
      have := Nat.le_mul_of_pos_right (heads.length * texts.length) rest.prod_pos
      omega
    · rw [if_neg (mt size.1 large), ← length_concatenations, crossProduct, ← concatenations_assoc]
      exact ih _ (.inl (by rw [length_concatenations]; omega))

theorem template_of_texts {id : TypeId} {all : List String}
    (h : expand ops t.limits.templateLimit spans [""] t = (.texts all, t')) :
    template ops id spans t = (do unionOf (← all.mapM stringLiteral)) t' := by
  have limits : getLimits t = (t.limits, t) := rfl
  rw [template, bind_of_eq limits, bind_of_eq h]

theorem template_of_widened {id : TypeId}
    (h : (expand ops t.limits.templateLimit spans [""] t).1 = .widened) :
    (template ops id spans t).1 = .string := by
  have limits : getLimits t = (t.limits, t) := rfl
  have run : expand ops t.limits.templateLimit spans [""] t =
      (.widened, (expand ops t.limits.templateLimit spans [""] t).2) := Prod.ext h rfl
  rw [template, bind_of_eq limits, bind_of_eq run]
  rfl

end Reduction

open Reduction

/-- A type that is not remembered is reduced where the guard lets it pass. -/
theorem evaluate_of_entered {t : TypeTable} {id : TypeId} (new : t.evaluated[id]? = none)
    (hneeds : needsEvaluation t id = true) (hopen : id ∉ t.evaluating) (hu : t.Untripped)
    (hd : t.depth < t.limits.maxDepth) :
    (evaluate id t).1 = (reduce t.deeper.operations id (t.resolve id) (t.deeper.opening id)).1 := by
  obtain ⟨deeper, hstep, hdeeper⟩ := evaluate_eq_step
  rw [hstep, step_of_needs new hneeds hopen, guarded_eq, enter_of_lt hu hd, hdeeper hd]
  dsimp only
  rw [remembering_eq]
  split <;> rfl

/-- **A template denotes the cross product of its spans.**  A template that is not remembered, and
that the guard lets pass, evaluates to the union of the string literals of the cross product if
there are not more texts than the limit, and to `string` otherwise. -/
theorem TypeTable.Reachable.evaluate_template {t t' : TypeTable} {id : TypeId}
    {spans : List TemplateSpan} {alts : List (List String)} (h : t.Reachable)
    (hid : t.resolve id = .template spans) (new : t.evaluated[id]? = none) (hu : t.Untripped)
    (hd : 0 < t.limits.maxDepth) (hl : t.limits.templateLimit < UInt64.size - 1)
    (holes : Alternatives t.deeper.operations spans (t.deeper.opening id) alts t') :
    (evaluate id t).1 = if (alts.map List.length).prod ≤ t.limits.templateLimit then
      ((do unionOf (← (crossProduct alts).mapM stringLiteral)) t').1 else .string := by
  have canonical : CanonicalSpans spans := h.sound.canonical_node hid
  have expanded := expand_eq hl holes [""] (.inr canonical.someHole)
  have hneeds : needsEvaluation t id = true := by rw [needsEvaluation, hid]; rfl
  rw [evaluate_of_entered new hneeds (h.quiescent.evaluating ▸ not_mem_nil) hu
    (h.quiescent.depth ▸ hd), hid]
  rw [length_singleton, one_mul] at expanded
  show (template t.deeper.operations id spans (t.deeper.opening id)).1 = _
  split at expanded
  · next small =>
    rw [if_pos small, template_of_texts expanded]
    simp [concatenations]
  · next large => rw [if_neg large, template_of_widened expanded]

theorem evaluate_template_boolean :
    let made := templateOf [.text "a", .hole .boolean] (withLimits {})
    made.2.Reachable ∧ made.2.resolve made.1 = .template [.text "a", .hole .boolean] ∧
      (evaluate made.1 made.2).1 = ((do unionOf (← ["afalse", "atrue"].mapM stringLiteral))
        (made.2.deeper.opening made.1)).1 := by
  intro made
  have reachable : made.2.Reachable :=
    (Reachable.start {}).step (.template [.text "a", .hole .boolean])
      (below_pair.2 ⟨below_text, below_hole.2 ((sound_withLimits {}).below_fixed rfl)⟩)
  have checked : made.2.resolve made.1 = .template [.text "a", .hole .boolean] ∧
      made.2.evaluated[made.1]? = none ∧ made.2.evaluated[TypeId.boolean]? = none ∧
      made.2.depthError = none ∧ made.2.limits.maxDepth = 100 ∧
      made.2.limits.templateLimit = 10000 ∧ needsEvaluation made.2 .boolean = false ∧
      texts? made.2 .boolean = some ["false", "true"] := by
    subst made
    cbv
  clear_value made
  obtain ⟨id, t⟩ := made
  obtain ⟨node, new, new', untripped, hd, hl, plain, texts⟩ := checked
  have same : t.deeper.operations.evaluate .boolean (t.deeper.opening id) =
      (.boolean, t.deeper.opening id) := by
    show evaluate .boolean (t.deeper.opening id) = _
    exact evaluate_of_plain new' plain
  have holes : Alternatives t.deeper.operations [.text "a", .hole .boolean] (t.deeper.opening id)
      [["a"], ["false", "true"]] (t.deeper.opening id) :=
    .text (.hole (by rw [same]; exact texts) (by simp) (by rw [same]; exact .nil))
  refine ⟨reachable, node, ?_⟩
  rw [reachable.evaluate_template node new untripped (by rw [hd]; decide) (by rw [hl]; decide) holes,
    hl]
  rfl

/-- `string extends ("a" before A) ? "p" : "q"` is the body of `A`.  The answers are "p" and the
results of `A` and then of the template. -/
def cyclicRun : TableM (TypeId × TypeId × TypeId) := do
  let a ← declareAlias "A" []
  let template ← templateOf [.text "a", .hole a]
  let p ← stringLiteral "p"
  let body ← intern (.conditional ⟨.string, template, p, ← stringLiteral "q", false⟩)
  let _ ← (defineAlias "A" body).run
  return (p, ← evaluate a, ← evaluate template)

set_option maxRecDepth 4000 in
/-- **The texts of the holes alone do not decide**: a template is kept where the guard trips, and a
template whose hole refers to it has the result that it had while the hole was evaluated. -/
theorem template_apart_from_holes :
    let kept := templateOf [.text "a", .hole .boolean] (withLimits { maxDepth := 0 })
    let out := (cyclicRun (withLimits {})).1
    (evaluate kept.1 kept.2).1 = kept.1 ∧ out.2 = (out.1, .string) := by
  cbv

/-- **A pattern is matched from the left**: a hole takes as little as it can, so that a match with
more of the text is missed. -/
theorem template_match_missed :
    fresh? (do
      let pattern ← templateOf [.hole (← intern (.infer "A")), .text "b"]
      evaluate (← intern (.conditional ⟨← stringLiteral "abab", pattern, .true, .false, false⟩))) =
    some .false := by
  cbv

end GradualTyping
