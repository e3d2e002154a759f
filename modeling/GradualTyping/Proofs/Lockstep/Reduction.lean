/-
# Substitution, reduction and awaiting in lockstep

What lies under the recursion guard of substitution, evaluation, pattern matching
and awaiting, over two records of guarded operations in lockstep.
-/

import GradualTyping.Proofs.Lockstep.Basic

namespace GradualTyping

open Reduction Substitution

namespace Lockstep

section State

variable (L : Lockstep) {σ : Type}

theorem getThe : (L.state σ).Rel (MonadStateOf.get : StateT σ TableM σ) MonadStateOf.get :=
  fun st => L.pure (st, st)

theorem modifyThe (g : σ → σ) :
    (L.state σ).Rel (modifyThe σ g : StateT σ TableM PUnit) (modifyThe σ g) :=
  fun st => L.pure (PUnit.unit, g st)

theorem set (st : σ) :
    (L.state σ).Rel (MonadStateOf.set st : StateT σ TableM PUnit) (MonadStateOf.set st) :=
  fun _ => L.pure (PUnit.unit, st)

end State

/-! ### Built-in members -/

section Members

variable (L : Lockstep)

theorem ofString? {name : String} : L.Rel (Members.ofString? name) (Members.ofString? name) := by
  have method : ∀ f : Signature, L.Rel (some <$> functionOf f) (some <$> functionOf f) :=
    fun f => L.self.map some (L.intern _)
  unfold Members.ofString?
  split
  all_goals first
    | exact L.pure _
    | exact method _
    | exact L.bind (L.intern _) fun _ => method _

theorem ofNumber? {name : String} : L.Rel (Members.ofNumber? name) (Members.ofNumber? name) := by
  unfold Members.ofNumber?
  split
  · exact L.self.map some (L.intern _)
  · exact L.self.map some (L.intern _)
  · exact L.pure _

theorem ofArray? {element : TypeId} {name : String} :
    L.Rel (Members.ofArray? element name) (Members.ofArray? element name) := by
  have method : ∀ f : Signature, L.Rel (some <$> functionOf f) (some <$> functionOf f) :=
    fun f => L.self.map some (L.intern _)
  unfold Members.ofArray?
  split
  · exact L.pure _
  · exact method _
  · exact L.bind (L.unionOf _) fun _ => method _
  · exact L.bind (L.unionOf _) fun _ => method _
  · exact method _
  · exact method _
  · exact method _
  · exact L.bind (L.intern _) fun _ => method _
  · exact L.bind (L.intern _) fun _ => method _
  · exact L.bind (L.intern _) fun _ => method _
  · exact L.bind (L.intern _) fun _ => L.bind (L.intern _) fun _ => method _
  · exact L.bind (L.intern _) fun _ => L.bind (L.unionOf _) fun _ => method _
  · exact L.bind (L.intern _) fun _ => method _
  · exact L.bind (L.intern _) fun _ => method _
  · exact L.bind (L.intern _) fun _ => L.bind (L.intern _) fun _ => L.bind (L.intern _) fun _ =>
      method _
  · exact L.pure _

end Members

namespace Joined

variable {L : Lockstep} {ops ops' : Operations} (J : L.Joined ops ops')
variable {id : TypeId}

include J

theorem member? {name : String} :
    L.Rel (Members.member? ops id name) (Members.member? ops' id name) := by
  refine L.bind (J.evaluate id) fun evaluated => L.bind (L.resolve evaluated) fun ty => ?_
  have toString : L.Rel
      (if name == "toString" then some <$> functionOf { params := [], result := .string }
        else Pure.pure none)
      (if name == "toString" then some <$> functionOf { params := [], result := .string }
        else Pure.pure none) := by
    split
    · exact L.self.map some (L.intern _)
    · exact L.pure none
  split
  iterate 4 exact L.ofString?
  iterate 2 exact L.ofNumber?
  iterate 4 exact toString
  · exact L.ofArray?
  · exact L.bind (L.unionOf _) fun element => L.ofArray?
  · exact L.pure none

/-! ### Substitution -/

theorem distributes? (s : Substitution) (c : Conditional) :
    L.Rel (distributes? ops s c) (distributes? ops' s c) := by
  unfold Substitution.distributes?
  split
  · split
    · next arg _ =>
      refine L.bind (J.evaluate arg) fun evaluated => L.bind (L.resolve evaluated) fun ty => ?_
      split
      · exact L.pure _
      · exact L.pure _
      · exact L.pure _
    · exact L.pure none
  · exact L.pure none

theorem rebuild {s : Substitution} {ty : Ty} :
    (L.state _).Rel (rebuild (ops.substituteIn s) id ty)
      (rebuild (ops'.substituteIn s) id ty) := by
  unfold Substitution.rebuild
  split
  · exact (L.state _).pure id
  · refine (L.state _).bind ((L.state _).mapM fun m _ => J.substituteIn s m) fun types =>
      (L.state _).lift ?_
    unfold nodeOf
    split
    · exact L.objectOf
    · exact L.unionOf _
    · exact L.intersectionOf
    · exact L.templateOf
    · exact L.promiseOf
    · exact L.intern _

theorem applyNode (s : Substitution) (id : TypeId) (ty : Ty) :
    (L.state _).Rel (applyNode ops s id ty)
      (applyNode ops' s id ty) := by
  unfold Substitution.applyNode
  split
  · next c =>
    refine (L.state _).bind ((L.state _).lift (J.distributes? s c)) fun members => ?_
    split
    · exact (L.state _).pure _
    · refine (L.state _).bind ((L.state _).mapM fun m _ => ?_) fun results => ?_
      · exact (L.state _).lift J.substitute
      · exact (L.state _).lift (L.unionOf results)
    · exact J.rebuild
  · exact J.rebuild

/-! ### Keys -/

theorem descent {α : Type} {d : Reduction.Descent α} (hd : ∀ evaluated node answers,
      L.Rel (d.answer evaluated node answers) (d.answer evaluated node answers))
    (fallback : α) : L.Rel (d.run ops fallback id) (d.run ops' fallback id) := by
  suffices h : ∀ fuel id, L.option.Rel (d.within ops fuel id) (d.within ops' fuel id) from
    L.bind (h _ id) fun _ => L.pure _
  intro fuel
  induction fuel with
  | zero => exact fun _ => L.pure none
  | succ fuel ih =>
    intro id
    refine L.option.bind (L.option.lift (J.evaluate id)) fun evaluated => ?_
    refine L.option.bind (L.option.lift (L.resolve evaluated)) fun node => ?_
    refine L.option.bind (L.option.mapM fun part _ => ih part) fun answers => ?_
    exact L.option.lift (hd evaluated node answers)

theorem keyNames : L.Rel (Reduction.keyNames ops id) (Reduction.keyNames ops' id) := by
  refine J.descent (fun _ node answers => ?_) []
  dsimp only [naming]
  split <;> exact L.pure _

theorem keyOf {operand : TypeId} :
    L.Rel (keyOf ops id operand) (keyOf ops' id operand) := by
  refine L.bind (J.evaluate operand) fun target => L.bind L.isDeferred fun deferred => ?_
  split
  · exact L.pure id
  refine L.bind (L.resolve target) fun ty => ?_
  split
  · exact L.unionOf _
  · exact L.bind (L.self.mapM fun p _ => L.stringLiteral) fun names => L.unionOf _
  · exact L.bind L.stringLiteral fun length => L.unionOf _
  · exact L.bind L.stringLiteral fun length => L.unionOf _
  · refine L.bind J.keyNames fun names => ?_
    exact L.bind (L.self.mapM fun name _ => L.stringLiteral) fun keys => L.unionOf keys
  · refine L.bind (L.self.mapM fun m _ => ?_) fun keys => L.unionOf keys
    exact L.bind (L.intern _) fun key => J.evaluate key
  · exact L.pure _

theorem readField (o : ObjectShape) (name : String) :
    L.Rel (readField ops o name) (readField ops' o name) := by
  unfold Reduction.readField
  split
  · split
    · exact L.unionOf _
    · exact J.evaluate _
  · exact L.pure _

theorem accessMember {key object : TypeId} :
    L.Rel (accessMember ops key object) (accessMember ops' key object) := by
  refine L.get (fun _ _ _ => rfl) fun t => ?_
  split
  · exact L.pure _
  · exact J.readField _ _
  · split
    · exact L.pure _
    · exact L.unionOf _
  · exact L.pure _
  · exact L.pure _
  · exact L.pure _
  · exact L.unionOf _
  · exact L.bind J.member? fun member => L.pure _
  · exact L.pure _

theorem indexed {object index : TypeId} :
    L.Rel (indexed ops id object index) (indexed ops' id object index) := by
  have access : ∀ object key,
      L.Rel (access ops object key) (access ops' object key) := by
    intro object key
    refine L.bind (L.resolve object) fun ty => ?_
    split
    · exact L.bind (L.self.mapM fun m _ => J.accessMember) fun types => L.unionOf types
    · exact J.accessMember
  refine L.bind (J.evaluate object) fun object => L.bind (J.evaluate index) fun index => ?_
  refine L.bind L.isOpen fun isOpen => ?_
  split
  · exact L.pure id
  refine L.bind L.isDeferred fun isDeferred => ?_
  split
  · exact L.pure id
  · refine L.bind (L.reads _ fun _ _ _ => rfl) fun keys => ?_
    exact L.bind (L.self.mapM fun key _ => access object key) fun types => L.unionOf types

/-! ### Mapped types -/

theorem instantiateTemplate (m : MappedShape) (key : TypeId) (source : Option (TypeId × TypeId)) :
    L.Rel (instantiateTemplate ops m key source)
      (instantiateTemplate ops' m key source) := by
  refine L.bind J.substitute fun value => L.bind (L.resolve value) fun ty => ?_
  split
  · exact L.pure value
  · exact L.pure value
  · exact J.evaluate value

theorem mapOver (m : MappedShape) (source target : TypeId) :
    L.Rel (mapOver ops m source target) (mapOver ops' m source target) := by
  have value := fun key => J.instantiateTemplate m key (some (source, target))
  refine L.bind (L.resolve target) fun ty => ?_
  split
  · refine L.bind (L.self.mapM fun p _ => ?_) fun properties => ?_
    · exact L.bind L.stringLiteral fun key => L.bind (value key) fun type => L.pure _
    · dsimp only
      split
      · exact L.bind (L.self.map some (value _)) fun index => L.objectOf
      · exact L.bind (L.pure none) fun index => L.objectOf
  · exact L.bind (value _) fun element => L.intern _
  · refine L.bind (L.self.mapM fun e _ => ?_) fun elements => ?_
    · exact L.bind L.literalType fun key => L.bind (value key) fun type => L.pure _
    · dsimp only
      split
      · exact L.bind (L.self.map some (value _)) fun rest => L.intern _
      · exact L.bind (L.pure none) fun rest => L.intern _
  · exact L.pure _
  · exact L.pure _

theorem mapped (id : TypeId) (m : MappedShape) :
    L.Rel (mapped ops id m) (mapped ops' id m) := by
  refine L.bind (L.resolve m.keys) fun ty => ?_
  split
  · next source =>
    refine L.bind (J.evaluate source) fun evaluated => L.bind (L.resolve evaluated) fun ty => ?_
    split
    · exact L.bind (L.self.mapM fun member _ => J.mapOver m source member) fun types =>
        L.unionOf types
    · exact L.pure id
    · refine L.bind L.isDeferred fun deferred => ?_
      split
      · exact L.pure id
      · exact J.mapOver m source evaluated
  · refine L.bind (J.evaluate m.keys) fun keys => L.bind L.isOpen fun isOpen => ?_
    split
    · exact L.pure id
    refine L.bind (L.reads _ fun _ _ _ => rfl) fun members => ?_
    refine L.bind (L.self.foldlM (fun fields key _ => ?_) _) fun fields => L.objectOf
    refine L.bind (L.resolve key) fun ty => ?_
    split
    iterate 3 exact L.bind (J.instantiateTemplate m key none) fun type => L.pure _
    · exact L.pure fields

/-! ### Templates and case changes -/

theorem expand (limit : Nat) {spans : List TemplateSpan} (heads : List String) :
    L.Rel (expand ops limit spans heads) (expand ops' limit spans heads) := by
  induction spans generalizing heads with
  | nil => exact L.pure _
  | cons span spans ih =>
    cases span with
    | text s => exact ih _
    | hole h =>
      refine L.bind (J.evaluate h) fun hole => L.get (fun _ _ _ => rfl) fun t => ?_
      split
      · split
        · exact L.pure _
        · exact ih _
      · refine L.bind L.isOpen fun isOpen => ?_
        split
        · exact L.pure _
        · exact L.pure _

theorem template (id : TypeId) {spans : List TemplateSpan} :
    L.Rel (template ops id spans) (template ops' id spans) := by
  refine L.look TypeTable.limits (fun _ _ _ => rfl) fun limits => L.bind (J.expand _ _) fun expansion => ?_
  split
  · exact L.bind (L.self.mapM fun text _ => L.stringLiteral) fun types => L.unionOf types
  · exact L.pure id
  · exact L.pure _

theorem caseMapped (id : TypeId) (change : CaseChange) {inner : TypeId} :
    L.Rel (caseMapped ops id change inner) (caseMapped ops' id change inner) := by
  refine L.bind (J.evaluate inner) fun evaluated => L.bind (L.resolve evaluated) fun ty => ?_
  split
  · exact L.stringLiteral
  · refine L.bind (L.self.mapM fun m _ => ?_) fun parts => L.unionOf parts
    exact L.bind (L.intern _) fun part => J.evaluate part
  · exact L.pure _
  · exact L.pure _
  · exact L.pure _
  · split
    · exact L.pure id
    · exact L.intern _

/-! ### Patterns -/

omit J in
theorem matchTemplate (spans : List TemplateSpan) (text : String) :
    (L.state _).Rel (matchTemplate spans text) (matchTemplate spans text) := by
  refine (L.state _).forM fun p _ => ?_
  refine (L.state _).bind ((L.state _).lift (L.resolve p.1)) fun ty => ?_
  split
  · refine (L.state _).bind ((L.state _).lift L.stringLiteral) fun literal => ?_
    exact L.modifyThe _
  · exact (L.state _).pure _

theorem matchRest (rest : TypeId) (start : Nat) (source : Signature) (contravariant : Bool) :
    (L.state _).Rel (matchRest ops rest start source contravariant)
      (matchRest ops' rest start source contravariant) := by
  refine (L.state _).get (fun _ _ _ => rfl) fun t => ?_
  split
  · refine (L.state _).bind ((L.state _).lift (L.intern _)) fun tuple => ?_
    exact L.modifyThe _
  · split
    · exact J.matchPattern _ _ _
    · exact (L.state _).pure _

theorem matchNodes {pattern source : TypeId} (contravariant : Bool) {patternTy sourceTy : Ty} :
    (L.state _).Rel (matchNodes ops pattern source contravariant patternTy sourceTy)
      (matchNodes ops' pattern source contravariant patternTy sourceTy) := by
  have expand : (L.state _).Rel
      (matchNodes.expandPattern ops pattern source contravariant)
      (matchNodes.expandPattern ops' pattern source contravariant) := by
    refine (L.state _).bind ((L.state _).lift (J.evaluate pattern)) fun expanded => ?_
    split
    · exact (L.state _).pure _
    · exact J.matchPattern _ _ _
  unfold Reduction.matchNodes
  split
  · exact J.matchPattern _ _ _
  · refine (L.state _).bind ((L.state _).lift (L.unionOf _)) fun joined => ?_
    exact J.matchPattern _ _ _
  · refine (L.state _).bind ((L.state _).forM fun p _ => J.matchPattern _ _ _) fun _ => ?_
    split
    · exact J.matchPattern _ _ _
    · exact (L.state _).pure _
  · refine (L.state _).forM fun p _ => ?_
    split
    · exact J.matchPattern _ _ _
    · exact (L.state _).pure _
  · refine (L.state _).bind ((L.state _).forM fun p _ => J.matchPattern _ _ _) fun _ => ?_
    dsimp only
    split
    · exact (L.state _).bind (J.matchRest _ _ _ _) fun _ => J.matchPattern _ _ _
    · exact (L.state _).bind ((L.state _).pure _) fun _ => J.matchPattern _ _ _
  · exact J.matchPattern _ _ _
  · split
    · exact (L.state _).forM fun p _ => J.matchPattern _ _ _
    · exact expand
  · exact expand
  · exact matchTemplate _ _
  · exact (L.state _).pure _

/-! ### Conditional types -/

theorem placeholderSubstitution {pattern check : TypeId} :
    L.Rel (placeholderSubstitution ops pattern check)
      (placeholderSubstitution ops' pattern check) := by
  refine L.bind (J.matchPattern pattern check false []) fun p => ?_
  refine L.bind (L.self.foldlM (fun s b _ => ?_) _) fun solved =>
    L.get (fun _ _ same => by simp only [same.placeholders]) fun _ => L.pure _
  refine L.bind ?_ fun type => L.pure _
  unfold Reduction.Binding.solve
  split
  · exact L.unionOf _
  split
  · exact L.intersectionOf
  · exact L.pure _

theorem decideConditional {check : TypeId} (c : Conditional) :
    L.Rel (decideConditional ops check c) (decideConditional ops' check c) := by
  refine L.bind J.placeholderSubstitution fun s => L.bind J.substitute fun pattern => ?_
  split
  · refine L.bind J.substitute fun yes => ?_
    exact L.bind (L.unionOf _) fun both => J.evaluate both
  · refine L.bind (J.subtype _ _) fun holds => ?_
    split
    · exact L.bind J.substitute fun yes => J.evaluate yes
    · exact J.evaluate _

theorem conditional (id : TypeId) (c : Conditional) :
    L.Rel (conditional ops id c) (conditional ops' id c) := by
  refine L.bind (J.evaluate _) fun check => L.bind (L.resolve check) fun ty => ?_
  split
  · exact L.pure _
  · refine L.bind (L.self.mapM fun m _ => ?_) fun results => L.unionOf results
    exact L.bind (L.intern _) fun part => J.evaluate part
  · refine L.bind L.isOpen fun isOpen => ?_
    split
    · exact L.pure id
    refine L.bind L.isOpen fun isOpen => ?_
    split
    · exact L.pure id
    · exact J.decideConditional c

/-! ### Utilities -/

theorem withModifiers {readonly optional : Option Bool} (id : TypeId) :
    L.Rel (withModifiers ops readonly optional id)
      (withModifiers ops' readonly optional id) := by
  refine J.descent (fun evaluated node answers => ?_) id
  dsimp only [modifying]
  split
  · exact L.objectOf
  · exact L.unionOf answers
  · exact L.intern _
  · exact L.pure evaluated

theorem pick (keep : Bool) {target keys : TypeId} :
    L.Rel (pick ops keep target keys) (pick ops' keep target keys) := by
  have names : L.Rel (literalKeys ops keys) (literalKeys ops' keys) :=
    L.bind (J.evaluate keys) fun _ => L.get (fun _ _ _ => rfl) fun _ => L.pure _
  refine L.bind names fun names => L.bind (J.evaluate target) fun evaluated => ?_
  refine L.bind (L.resolve evaluated) fun ty => ?_
  split
  · exact L.objectOf
  · exact L.pure evaluated

theorem filterMembers (keep : Bool) {target filter : TypeId} :
    L.Rel (Reduction.filterMembers ops keep target filter)
      (Reduction.filterMembers ops' keep target filter) := by
  refine L.bind (J.evaluate target) fun target => L.bind (L.reads _ fun _ _ _ => rfl) fun members => ?_
  refine L.bind (L.self.filterM fun m _ => ?_) fun kept => L.unionOf kept
  exact L.bind (J.subtype m filter) fun holds => L.pure _

theorem signaturePart (kind : CallKind) (part : Reduction.SignaturePart) (id : TypeId) :
    L.Rel (signaturePart ops kind part id) (signaturePart ops' kind part id) := by
  have taken : ∀ f, L.Rel (part.of f) (part.of f) := by
    intro f
    cases part with
    | parameters => exact L.intern _
    | result => exact L.pure _
  refine J.descent (fun _ node answers => ?_) TypeId.never
  dsimp only [taking]
  split
  · split
    · exact L.intern _
    · exact L.pure _
  · exact L.unionOf answers
  · split
    · exact taken _
    · exact L.pure _
  · exact L.pure _

theorem utility (id : TypeId) (u : Utility) (args : List TypeId) :
    L.Rel (utility ops id u args) (utility ops' id u args) := by
  refine L.bind (L.self.anyM fun arg _ => L.isOpen) fun isOpen => ?_
  split
  · exact L.pure id
  cases u with
  | optionalFields | requiredFields | readonlyFields => exact J.withModifiers _
  | pickFields | dropFields => exact J.pick _
  | record => exact L.bind (J.evaluate _) fun _ => L.get (fun _ _ _ => rfl) fun _ => L.objectOf
  | exclude | extract => exact J.filterMembers _
  | nonNullable => exact L.bind (J.evaluate _) fun _ => L.get (fun _ _ _ => rfl) fun _ => L.unionOf _
  | parameters | constructorParameters | returnType | instanceType =>
    exact J.signaturePart _ _ _
  | awaited => exact J.awaited _
  | caseChange change => exact L.bind (L.intern _) fun part => J.evaluate part

/-! ### References and the other nodes -/

theorem aliasSubstitution (params args : List TypeId) (s : Substitution) :
    L.Rel (aliasSubstitution ops params args s)
      (aliasSubstitution ops' params args s) := by
  induction params generalizing args s with
  | nil => exact L.pure s
  | cons p params ih =>
    unfold Reduction.aliasSubstitution
    dsimp only
    split
    · exact L.bind (L.pure _) fun arg => ih _ _
    · refine L.bind (L.resolve p) fun ty => ?_
      split
      · exact L.bind J.substitute fun arg => ih _ _
      · exact L.bind (L.pure _) fun arg => ih _ _

theorem reference (id : TypeId) (name : String) (args : List TypeId) :
    L.Rel (reference ops id name args) (reference ops' id name args) := by
  refine L.get (fun _ _ _ => rfl) fun t => ?_
  split
  · split
    · exact L.pure id
    · refine L.bind (J.aliasSubstitution _ _ _) fun s => L.whileExpanding name ?_
      exact L.bind J.substitute fun body => J.evaluate body
  · split
    · exact J.utility id _ args
    · exact L.pure id

theorem reduce {ty : Ty} : L.Rel (reduce ops id ty) (reduce ops' id ty) := by
  cases ty with
  | union ms =>
    exact L.bind (L.self.mapM fun m _ => J.evaluate m) fun ms => L.unionOf ms
  | intersection ms =>
    exact L.bind (L.self.mapM fun m _ => J.evaluate m) fun ms => L.intersectionOf
  | reference name args => exact J.reference id name args
  | conditional c => exact J.conditional id c
  | mapped m => exact J.mapped id m
  | keyOf operand => exact J.keyOf
  | indexed object index => exact J.indexed
  | template spans => exact J.template id
  | caseMapped change inner => exact J.caseMapped id change
  | _ => exact L.pure id

end Joined

end Lockstep

end GradualTyping
