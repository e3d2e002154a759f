/-
# What evaluation remembers

Evaluation keeps the result of every type that it evaluates, and no operation takes
a result away: a type that has been evaluated has that result for good
(`evaluate_of_remembered`, `Leads.continues`).  So the memory is not transparent.
Evaluation gives the same type with and without it only where evaluation afresh
still finds the remembered result, and the definition of an alias takes effect on
the references that have not been evaluated before, and on no others
(`Reachable.memory_permanent`).

A reference that is evaluated between the declaration and the definition of its
alias shows the difference (`memory_hides_definition`).
-/

import GradualTyping.Proofs.Reachable

namespace GradualTyping

open TypeTable Reduction

namespace TypeTable

/-- The table without its memory. -/
def forget (t : TypeTable) : TypeTable := { t with evaluated := {} }

theorem forget_evaluated (t : TypeTable) (id : TypeId) : t.forget.evaluated[id]? = none :=
  Std.HashMap.getElem?_empty

/-- Operations on types of the table lead from one table to another. -/
inductive Leads (t : TypeTable) : TypeTable → Prop
  | refl : Leads t t
  | step {t' : TypeTable} (op : Operation) : Leads t t' → op.Within t'.size → Leads t (op.run t')

variable {t t' : TypeTable}

theorem Leads.reachable (l : t.Leads t') (h : t.Reachable) : t'.Reachable := by
  induction l with
  | refl => exact h
  | step op _ hop ih => exact .step op ih hop

/-- **No operation takes a result away.** -/
theorem Leads.continues (l : t.Leads t') (h : t.Reachable) : t.Continues t' := by
  induction l with
  | refl => exact .refl t
  | step op l hop ih =>
    have h' := l.reachable h
    exact ih.trans (op.continues_run h'.sound h'.quiescent hop).2

end TypeTable

/-! ### Evaluation of a type -/

section Evaluate

variable {t : TypeTable} {id : TypeId}

/-- Evaluation at a level is a step over the operations below. -/
theorem evaluate_eq_step :
    ∃ deeper, evaluate id t = step deeper id t ∧
      (t.depth < t.limits.maxDepth → deeper = t.deeper.operations) := by
  show ∃ deeper, (Operations.withLevels (t.limits.maxDepth - t.depth)).evaluate id t = _ ∧ _
  cases hn : t.limits.maxDepth - t.depth with
  | zero => exact ⟨.inert, rfl, fun h => absurd hn (by omega)⟩
  | succ n =>
    refine ⟨.withLevels n, rfl, fun _ => ?_⟩
    show _ = Operations.withLevels (t.limits.maxDepth - (t.depth + 1))
    rw [show t.limits.maxDepth - (t.depth + 1) = n by omega]

theorem evaluate_of_remembered {v : TypeId} (h : t.evaluated[id]? = some v) :
    evaluate id t = (v, t) := by
  obtain ⟨deeper, hstep, -⟩ := evaluate_eq_step
  rw [hstep, step_of_remembered h]

theorem evaluate_of_plain (hmiss : t.evaluated[id]? = none)
    (h : needsEvaluation t id = false) : evaluate id t = (id, t) := by
  obtain ⟨deeper, hstep, -⟩ := evaluate_eq_step
  rw [hstep, step_of_new hmiss, h]
  rfl

/-- **A type that is not remembered is reduced, and the result is remembered.** -/
theorem evaluate_of_new (hmiss : t.evaluated[id]? = none)
    (hneeds : needsEvaluation t id = true) (rest : t.evaluating = [])
    (untripped : (evaluate id t).2.Untripped) :
    (evaluate id t).1 =
        (reduce t.deeper.operations id (t.resolve id) (t.deeper.opening id)).1 ∧
      (evaluate id t).2.evaluated[id]? = some (evaluate id t).1 := by
  obtain ⟨deeper, hstep, hdeeper⟩ := evaluate_eq_step
  rw [hstep] at untripped ⊢
  obtain ⟨hdepth, hresult⟩ :=
    step_remembers hmiss hneeds (rest ▸ List.not_mem_nil) untripped
  rwa [hdeeper hdepth] at hresult ⊢

/-- The result of a reduction that does not trip the guard is remembered. -/
theorem Reduction.step_of_reduce {ops : Operations} {r : TypeId} {t' : TypeTable}
    (hmiss : t.evaluated[id]? = none) (hneeds : needsEvaluation t id = true)
    (hopen : id ∉ t.evaluating) (hu : t.Untripped) (hd : t.depth < t.limits.maxDepth)
    (hr : reduce ops id (t.resolve id) (t.deeper.opening id) = (r, t'))
    (hu' : t'.Untripped) : step ops id t = (r, (t'.closing.storing id r).shallower) := by
  rw [step_of_needs hmiss hneeds hopen, guarded_eq, enter_of_lt hu hd]
  dsimp only
  rw [remembering_eq, hr, if_neg hu'.not_isSome]

end Evaluate

/-! ### Definition of an alias -/

/-- The evaluation of the body of an alias with its arguments. -/
def Reduction.expansion (ops : Operations) (name : String) (params args : List TypeId)
    (body : TypeId) : TableM TypeId := do
  let s ← aliasSubstitution ops params args {}
  whileExpanding name do ops.evaluate (← ops.substitute s body)

section Define

variable {t t' : TypeTable} {name : String} {body : TypeId}

theorem reduce_reference {ops : Operations} {id : TypeId} {args : List TypeId} {definition : Alias}
    (hdef : t.alias? name = some definition) (hbody : definition.body = some body) :
    reduce ops id (.reference name args) t =
      expansion ops name definition.params args body t := by
  show reference ops id name args t = _
  unfold reference
  rw [get_bind, hdef]
  dsimp only
  rw [hbody]
  rfl

/-- An operation that leaves the table alone does so while an alias is expanded. -/
theorem whileExpanding_of_same {α : Type} {c : TableM α} {a : α}
    (h : c (t.expandingOne name) = (a, t.expandingOne name)) :
    whileExpanding name c t = (a, t) := by
  show ((c (t.expandingOne name)).1, { (c (t.expandingOne name)).2 with
    expanding := (c (t.expandingOne name)).2.expanding.drop 1 }) = _
  rw [h]
  rfl

/-- A definition that succeeds sets the body and nothing else. -/
theorem defineAlias_ok (h : (defineAlias name body).run t = (.ok (), t')) :
    ∃ declared, t.alias? name = some declared ∧
      t' = { t with aliases := t.aliases.insert name { declared with body := some body } } := by
  rw [defineAlias_run] at h
  cases hd : t.alias? name with
  | none => cases hd ▸ h
  | some declared =>
    rw [hd, Option.elim] at h
    split at h
    · cases h
    · exact ⟨declared, rfl, (congrArg Prod.snd h).symm⟩

end Define

/-! ### The memory is permanent -/

/-- Evaluation gives the same type with and without the memory of the table. -/
def Transparent (t : TypeTable) (id : TypeId) : Prop :=
  (evaluate id t).1 = (evaluate id t.forget).1

/-- What is remembered was stored by evaluation. -/
theorem TypeTable.Reachable.stored {t : TypeTable} (h : t.Reachable) {k v : TypeId}
    (hv : t.evaluated[k]? = some v) : t.Stored k v := by
  induction h with
  | start limits =>
    rw [withLimits_eq] at hv
    exact absurd hv (by simp)
  | step op h hop ih =>
    have c := (op.continues_run h.sound h.quiescent hop).2
    rcases c.stored hv with hv | hstored
    · exact (ih hv).keep c c.remembered
    · exact hstored

/-- **A result is remembered for good.**  In every reachable table:

* a result that is remembered was given by evaluation on an earlier table, and the type has it in
  every table that operations lead to, whatever they declare and define;
* any other type is reduced over evaluation one level deeper, unless the guard trips, and its
  result is remembered;
* after an alias has been defined, evaluating a reference to it gives the result remembered from
  before the definition, if there is one, and otherwise the evaluation of the new body with the
  arguments. -/
theorem TypeTable.Reachable.memory_permanent {t : TypeTable} (h : t.Reachable) :
    (∀ id v, t.evaluated[id]? = some v → t.Recorded id v ∧
      ∀ t', t.Leads t' → evaluate id t' = (v, t')) ∧
    (∀ id, t.evaluated[id]? = none → needsEvaluation t id = true →
      (evaluate id t).2.Untripped →
      (evaluate id t).1 =
          (reduce t.deeper.operations id (t.resolve id) (t.deeper.opening id)).1 ∧
        (evaluate id t).2.evaluated[id]? = some (evaluate id t).1) ∧
    (∀ id, needsEvaluation t id = false → evaluate id t = (id, t) ∧ Transparent t id) ∧
    (∀ name body t', (defineAlias name body).run t = (.ok (), t') →
      ∃ params, ∀ id args, t'.resolve id = .reference name args →
        (∀ v, t.evaluated[id]? = some v → evaluate id t' = (v, t')) ∧
        (t.evaluated[id]? = none → (evaluate id t').2.Untripped →
          (evaluate id t').1 = (Reduction.expansion t'.deeper.operations name params args body
            (t'.deeper.opening id)).1)) := by
  refine ⟨fun id v hv => ⟨(h.stored hv).recorded, fun t' l => ?_⟩, fun id hmiss hneeds hu => ?_,
    fun id hplain => ?_, fun name body t' hok => ?_⟩
  · exact evaluate_of_remembered ((l.continues h).remembered hv)
  · exact evaluate_of_new hmiss hneeds h.quiescent.evaluating hu
  · have hmiss : t.evaluated[id]? = none := by
      cases hv : t.evaluated[id]? with
      | none => rfl
      | some v =>
        rw [(h.sound.evaluated hv).2] at hplain
        cases hplain
    rw [Transparent, evaluate_of_plain hmiss hplain,
      evaluate_of_plain (forget_evaluated t id) hplain]
    exact ⟨rfl, rfl⟩
  · obtain ⟨declared, -, ht'⟩ := defineAlias_ok hok
    have hmemory : t'.evaluated = t.evaluated := by rw [ht']
    have hrest : t'.evaluating = [] := by rw [ht']; exact h.quiescent.evaluating
    have hdefined : t'.alias? name = some { declared with body := some body } := by
      rw [ht']
      exact Std.HashMap.getElem?_insert_self
    refine ⟨declared.params, fun id args hid => ⟨fun v hv => ?_, fun hmiss hu => ?_⟩⟩
    · exact evaluate_of_remembered (hmemory ▸ hv)
    · have hneeds : needsEvaluation t' id = true := by
        rw [needsEvaluation, hid]
        rfl
      rw [(evaluate_of_new (hmemory ▸ hmiss) hneeds hrest hu).1, hid]
      have hdefined : (t'.deeper.opening id).alias? name =
          some { declared with body := some body } := hdefined
      rw [reduce_reference hdefined rfl]

/-- A table with an alias that has been declared and evaluated and not been defined. -/
theorem reachable_declared :
    let a := declareAlias "A" [] (withLimits {})
    (evaluate a.1 a.2).2.Reachable :=
  ((Reachable.start {}).step (.declareAlias "A" []) below_nil).step (.evaluate _)
    (growing_declareAlias (sound_withLimits {}) below_nil).post

/-- The reference is remembered as its own result, and only evaluation without memory finds the
body. -/
theorem remembered_declared :
    let a := declareAlias "A" [] (withLimits {})
    let e := evaluate a.1 a.2
    let d := (defineAlias "A" .number).run e.2
    a.1 = ⟨13⟩ ∧ e.2.evaluated[a.1]? = some a.1 ∧ d.2.evaluated[a.1]? = some a.1 ∧ d.1 = .ok () ∧
      d.2.depthError = none ∧ (evaluate a.1 d.2.forget).1 = .number ∧
      (evaluate a.1 d.2.forget).2.depthError = none := by
  cbv

theorem memory_permanent_declared :
    let a := declareAlias "A" [] (withLimits {})
    let e := evaluate a.1 a.2
    e.2.Reachable ∧ ∀ t, e.2.Leads t → evaluate a.1 t = (a.1, t) :=
  ⟨reachable_declared, (reachable_declared.memory_permanent.1 _ _ remembered_declared.2.1).2⟩

/-- **The definition of an alias that has been evaluated has no effect.** -/
theorem memory_hides_definition :
    let a := declareAlias "A" [] (withLimits {})
    let e := evaluate a.1 a.2
    let d := (defineAlias "A" .number).run e.2
    d.1 = .ok () ∧ d.2.Reachable ∧ evaluate a.1 d.2 = (a.1, d.2) ∧ d.2.Untripped ∧
      (evaluate a.1 d.2.forget).1 = .number ∧ (evaluate a.1 d.2.forget).2.Untripped ∧
      ¬ Transparent d.2 a.1 := by
  obtain ⟨ha, -, hold, ok, untripped, new, untripped'⟩ := remembered_declared
  refine ⟨ok, reachable_declared.step (.defineAlias "A" .number)
    (reachable_declared.sound.below_fixed rfl), evaluate_of_remembered hold, untripped, new,
    untripped', ?_⟩
  rw [Transparent, evaluate_of_remembered hold, new, ha]
  exact nofun

set_option maxRecDepth 20000 in
/-- **The memory stops distribution**: an instance that is evaluated before the definition of its
alias is kept, and the union of the instances is not the instance of the union. -/
theorem distribution_stopped :
    fresh? (do
      let param ← intern (.param { name := "T", scope := 1 })
      let _ ← declareAlias "F" [param]
      let a ← stringLiteral "a"
      let b ← stringLiteral "b"
      let first ← intern (.reference "F" [a])
      let _ ← evaluate first
      let body ← intern (.conditional ⟨param, .string, .true, .false, true⟩)
      let _ ← (defineAlias "F" body).run
      let whole ← evaluate (← intern (.reference "F" [← unionOf [a, b]]))
      let second ← evaluate (← intern (.reference "F" [b]))
      return whole == (← unionOf [← evaluate first, second])) = some false := by
  cbv

set_option maxRecDepth 20000 in
/-- **Picked and omitted fields do not make up the object** if the picked ones are remembered from
when their keys were under way. -/
theorem pick_omit_apart :
    fresh? (do
      let object ← objectOf [{ name := "a", type := .number }, { name := "b", type := .string }] none
      let keys ← declareAlias "K" []
      let picked ← intern (.reference "Pick" [object, keys])
      let body ← intern (.conditional
        ⟨picked, object, ← stringLiteral "b", ← stringLiteral "a", false⟩)
      let _ ← (defineAlias "K" body).run
      let _ ← evaluate keys
      let omitted ← evaluate (← intern (.reference "Omit" [object, keys]))
      return (← intersectionOf [← evaluate picked, omitted]) == object) = some false := by
  cbv

end GradualTyping
