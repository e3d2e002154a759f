/-
# The stacks of the checker

The checker pushes and pops scopes, scopes of type parameters, functions and breakable
statements on its way through a unit.  However a check ends, the stacks have their height
and their outer entries again (`CheckState.Aligned`), and the scopes are the very same
after an expression or a block (`CheckState.Level`).

Only statements of a block change the innermost scope: its declarations are entered first,
a variable is entered where it stands, and a function gets its result.  So the outermost
scope has the names of the statements at the top level and no others.
-/

import GradualTyping.Proofs.Tracking.Declared
import GradualTyping.Proofs.Walks.Rules

namespace GradualTyping

open TypeTable CheckState Checking

/-! ### The names of a scope -/

namespace Scope

/-- A scope has a variable of a name. -/
def Has (scope : Scope) (x : String) : Prop := scope.locals x ≠ []

variable {scope : Scope} {name x : String}

theorem has_iff_mem : scope.Has x ↔ x ∈ scope.bindings.map (·.1) := by
  unfold Has locals
  rw [ne_eq, List.map_eq_nil_iff, List.filter_eq_nil_iff, List.mem_map]
  simp

theorem isSome_get? : (scope.get? x).isSome ↔ scope.Has x := by
  rw [get?_eq_locals, List.isSome_head?]
  cases h : scope.locals x <;> simp [Has, h]

theorem has_insert {b : LocalVariable} {previous : Option TypeId} :
    (scope.insert name b previous).Has x ↔ scope.Has x ∨ x = name := by
  have h := congrArg Prod.fst (entry_insert scope name b previous (x := x))
  show (entry _ x).1 ≠ [] ↔ _
  rw [h]
  by_cases e : x = name
  · rw [if_pos e]
    by_cases hnone : scope.get? x = none
    · rw [if_pos hnone]
      simp [e]
    · rw [if_neg hnone]
      have hx : scope.Has x := isSome_get?.1 (Option.isSome_iff_ne_none.2 hnone)
      simpa [e] using e ▸ hx
  · rw [if_neg e]
    simp [e, Has, entry]

theorem has_redeclare {type : TypeId} : (scope.redeclare name type).Has x ↔ scope.Has x := by
  have h := congrArg Prod.fst (entry_redeclare scope name type (x := x))
  show (entry _ x).1 ≠ [] ↔ _
  rw [h]
  by_cases e : x = name
  · simp [e, Has]
  · simp [e, Has, entry]

end Scope

/-! ### Names of the innermost scope -/

/-- The name of a variable, which a statement enters where it stands. -/
def StmtKind.varName? : StmtKind → Option String
  | .var _ name _ _ => some name
  | _ => none

def StmtKind.functionName? : StmtKind → Option String
  | .function f => some f.name
  | _ => none

def StmtKind.className? : StmtKind → Option String
  | .class_ c => some c.name
  | _ => none

/-- The name of a function or a class, which is entered before the statements of its block. -/
def StmtKind.hoistedName? (kind : StmtKind) : Option String := kind.functionName?.or kind.className?

/-- The name of the value that a statement declares: a variable, a function or a class. -/
def StmtKind.valueName? : StmtKind → Option String
  | .var _ name _ _ => some name
  | .function f => some f.name
  | .class_ c => some c.name
  | _ => none

theorem StmtKind.valueName?_eq_some {kind : StmtKind} {x : String} :
    kind.valueName? = some x ↔ kind.hoistedName? = some x ∨ kind.varName? = some x := by
  cases kind <;> simp [valueName?, hoistedName?, varName?, functionName?, className?]

namespace CheckState

/-- The innermost scope has a variable of a name. -/
def Declares (s : CheckState) (x : String) : Prop := ∃ scope outer, s.scopes = scope :: outer ∧ scope.Has x

variable {s s' s'' : CheckState} {x : String}

theorem declares_congr (h : s'.scopes = s.scopes) : s'.Declares x ↔ s.Declares x := by
  unfold Declares
  rw [h]

/-- The stacks are kept and names are entered in the innermost scope: only names that are
`allowed`, and all names that are `due`. -/
structure Enters (allowed due : String → Prop) (s s' : CheckState) : Prop where
  aligned : s.Aligned s'
  kept : ∀ x, s.Declares x → s'.Declares x
  names : ∀ x, s'.Declares x → s.Declares x ∨ allowed x
  all : ∀ x, due x → s'.Declares x

variable {A B D E : String → Prop}

theorem Level.enters (h : s.Level s') : s.Enters (fun _ => False) (fun _ => False) s' where
  aligned := h.aligned
  kept _ := (declares_congr h.scopes).2
  names _ hx := .inl ((declares_congr h.scopes).1 hx)
  all _ := False.elim

theorem Enters.trans (h : s.Enters A D s') (h' : s'.Enters B E s'') :
    s.Enters (fun x => A x ∨ B x) (fun x => D x ∨ E x) s'' where
  aligned := Lax.trans h.aligned h'.aligned
  kept x hx := h'.kept x (h.kept x hx)
  names x hx := (h'.names x hx).elim (fun hx => (h.names x hx).imp_right .inl) fun hx => .inr (.inr hx)
  all x hx := hx.elim (fun hx => h'.kept x (h.all x hx)) (h'.all x)

theorem Enters.bind {α β : Type} {t : TypeTable} {c : CheckM α} {f : α → CheckM β}
    (h : s.Enters A D (c s t).1.2)
    (hf : ∀ a s' t', s.Enters A D s' → s'.Enters B E (f a s' t').1.2) :
    s.Enters (fun x => A x ∨ B x) (fun x => D x ∨ E x) ((c >>= f) s t).1.2 :=
  h.trans (hf (c s t).1.1 (c s t).1.2 (c s t).2 h)

theorem Enters.mono (h : s.Enters A D s') (ha : ∀ x, A x → B x)
    (hd : ∀ x, E x → D x) : s.Enters B E s' where
  aligned := h.aligned
  kept := h.kept
  names x hx := (h.names x hx).imp_right (ha x)
  all x hx := h.all x (hd x hx)

end CheckState

namespace Checking

variable {s : CheckState} {t : TypeTable} {c : Checks}
variable {span : Span} {mark : Nat}

theorem enters_bind (h : s.scopes ≠ []) (name : String) (type : TypeId) (mutable : Bool) :
    s.Enters (· = name) (· = name) (bind name type mutable s t).1.2 := by
  obtain ⟨scope, outer, hs⟩ := List.exists_cons_of_ne_nil h
  have after : (bind name type mutable s t).1.2.scopes =
      scope.insert name ⟨type, mutable⟩ (s.env.get? name) :: outer := by
    obtain ⟨⟩ := s
    cases hs
    rfl
  have declares (x : String) :
      (bind name type mutable s t).1.2.Declares x ↔ s.Declares x ∨ x = name := by
    unfold Declares
    simp [after, hs, Scope.has_insert]
  exact ⟨(aligned_bind name type mutable s t).1, fun x hx => (declares x).2 (.inl hx),
    fun x hx => (declares x).1 hx, fun x hx => (declares x).2 (.inr hx)⟩

theorem enters_bindAll (h : s.scopes ≠ []) (values : List (String × TypeId)) :
    s.Enters (· ∈ values.map (·.1)) (· ∈ values.map (·.1))
      ((values.forM fun (name, type) => bind name type false : CheckM Unit) s t).1.2 := by
  induction values generalizing s t with
  | nil => exact (Level.refl s).enters.mono (fun _ => False.elim) fun _ h => nomatch h
  | cons p values ih =>
    have first := enters_bind (t := t) h p.1 p.2 false
    exact (first.trans (ih (first.aligned.scopes.ne_nil h))).mono (fun x => List.mem_cons.2)
      fun x => List.mem_cons.1

/-- Declaring a function of the innermost scope anew. -/
theorem enters_redeclare {name : String} (h : s.Declares name) {type : TypeId} :
    s.Enters (fun _ => False) (fun _ => False) (redeclare name type s t).1.2 := by
  obtain ⟨scope, outer, hs, hname⟩ := h
  have bound : (scope.get? name).isSome := Scope.isSome_get?.2 hname
  have after : (redeclare name type s t).1.2 =
      { s with scopes := scope.redeclare name type :: outer, env := s.env.insert name type } := by
    obtain ⟨b, hb⟩ := Option.isSome_iff_exists.1 bound
    have found : s.binding? name = some b := by
      unfold binding?
      rw [hs, List.findSome?_cons, hb]
    simp only [redeclare, modify, modifyGet, MonadStateOf.modifyGet, StateT.modifyGet, found, hs]
    show { s with scopes := redeclareIn name type (scope :: outer), env := _ } = _
    rw [redeclareIn, if_pos bound]
  have declares (x : String) : (redeclare name type s t).1.2.Declares x ↔ s.Declares x := by
    unfold Declares
    simp [after, hs, Scope.has_redeclare]
  refine ⟨?_, fun x => (declares x).2, fun x hx => .inl ((declares x).1 hx), fun _ => False.elim⟩
  rw [after]
  exact ⟨hs ▸ .cons .., rfl, rfl, .refl _, .refl _⟩

/-! ### Statements of a block -/

/-- A variable is entered after the check of its type and its initial value. -/
theorem Keeps.checkVar (h : Keeps c) (hs : s.scopes ≠ []) (kind : VarKind) (name : String)
    (type : Option TypeExpr) (init : Option Expr) (span : Span) :
    s.Enters (· = name) (· = name) (checkVar c kind name type init span s t).1.2 := by
  refine ((h.varTypes kind type init span s t).1.enters.bind fun types s1 t1 h1 =>
    (enters_bind (h1.aligned.scopes.ne_nil hs) name types.1 (kind = .let_)).bind fun _ s2 t2 _ =>
    (level_refine name types.2 s2 t2).1.enters).mono ?_ ?_
  · exact fun x hx => hx.elim False.elim fun hx => hx.elim id False.elim
  · exact fun x hx => .inr (.inl hx)

/-- A function gets its result after the check of its body. -/
theorem Keeps.checkFunctionDecl (h : Keeps c) {f : FunctionDecl Stmt} (hf : s.Declares f.name) :
    s.Enters (fun _ => False) (fun _ => False) (checkFunctionDecl c f span s t).1.2 := by
  refine ((h.inferredType? f span s t).1.enters.bind (B := fun _ => False) (E := fun _ => False)
    fun type s1 t1 h1 => ?_).mono (fun x => or_self_iff.1) fun _ => False.elim
  cases type with
  | none => exact (Level.refl _).enters
  | some type => exact enters_redeclare (h1.kept _ hf)

/-- **What one statement enters**: the variable that it declares. -/
theorem Keeps.checkStmt (h : Keeps c) {stmt : Stmt} (hs : s.scopes ≠ [])
    (hfunction : ∀ f, stmt.kind = .function f → s.Declares f.name) :
    s.Enters (stmt.kind.varName? = some ·) (stmt.kind.varName? = some ·)
      (checkStmt c stmt s t).1.2 := by
  have other := h.level_checkStmt stmt
  obtain ⟨kind, span⟩ := stmt
  cases kind with
  | var kind name type init =>
    exact (h.checkVar hs kind name type init span).mono (fun x hx => congrArg some hx.symm)
      fun x hx => (Option.some.inj hx).symm
  | function f =>
    exact (h.checkFunctionDecl (hfunction f rfl)).mono (fun _ => False.elim) fun _ h => nomatch h
  | _ =>
    exact (other (fun _ _ _ _ => nofun) (fun _ => nofun) s t).1.enters.mono (fun _ => False.elim)
      fun _ h => nomatch h

theorem isAbandoned_of_abandoned (h : s.abandoned = true) :
    isAbandoned mark span s t = ((true, s), t) := by
  show (if s.abandoned = true then _ else _ : CheckM Bool) s t = _
  rw [if_pos h]
  rfl

theorem isAbandoned_of_none (h : s.abandoned = false) (hnone : t.depthError = none) :
    isAbandoned mark span s t = ((false, s), t) := by
  obtain ⟨⟩ := t
  cases hnone
  show (if s.abandoned = true then _ else _ : CheckM Bool) s _ = _
  rw [h]
  rfl

/-- The unit is given up: the errors after the mark give way to that of the guard. -/
theorem isAbandoned_of_some {e : TypeError} (h : s.abandoned = false)
    (hsome : t.depthError = some e) :
    isAbandoned mark span s t = ((true, { s with
      errors := s.errors.take mark ++ [⟨.ofTypeError e, span⟩], abandoned := true }),
      { t with depthError := none }) := by
  obtain ⟨⟩ := t
  cases hsome
  show (if s.abandoned = true then _ else _ : CheckM Bool) s _ = _
  rw [h]
  rfl

/-- Whether the unit is given up is asked without a change of the stacks, and a unit that is
given up stays so. -/
theorem level_isAbandoned :
    s.Level (isAbandoned mark span s t).1.2 ∧
      ((isAbandoned mark span s t).1.1 = true → (isAbandoned mark span s t).1.2.abandoned = true) := by
  cases h : s.abandoned with
  | true =>
    rw [isAbandoned_of_abandoned h]
    exact ⟨.refl s, fun _ => h⟩
  | false =>
    cases he : t.depthError with
    | none =>
      rw [isAbandoned_of_none h he]
      exact ⟨.refl s, nofun⟩
    | some e =>
      rw [isAbandoned_of_some h he]
      exact ⟨⟨rfl, rfl, rfl, .refl _, .refl _⟩, fun _ => rfl⟩

theorem checkInOrder_cons {stmt : Stmt} {s1 : CheckState} {t1 : TypeTable} {b : Bool}
    {rest : List Stmt}
    (h : isAbandoned s.errors.length stmt.span (checkStmt c stmt s t).1.2 (checkStmt c stmt s t).2 =
      ((b, s1), t1)) :
    checkInOrder c (stmt :: rest) s t = if b then (((), s1), t1) else
      checkInOrder c rest (recordFrom .statement [s1.current] stmt.span s1 t1).1.2 t1 := by
  have run : checkInOrder c (stmt :: rest) s t = (fun r : (Bool × CheckState) × TypeTable =>
      (if r.1.1 then pure () else do
        recordFrom .statement [(← get).current] stmt.span
        checkInOrder c rest : CheckM Unit) r.1.2 r.2)
      (isAbandoned s.errors.length stmt.span (checkStmt c stmt s t).1.2 (checkStmt c stmt s t).2) := rfl
  rw [run, h]
  cases b <;> rfl

theorem checkStatements_eq {block : List Stmt} {s1 : CheckState} {t1 : TypeTable} {b : Bool}
    (h : (do declare block ((block.head?.map (·.span)).getD {})
             isAbandoned s.errors.length ((block.head?.map (·.span)).getD {}) : CheckM Bool) s t =
      ((b, s1), t1)) :
    checkStatements c block s t = if b then (((), s1), t1) else checkInOrder c block s1 t1 := by
  have run : checkStatements c block s t = (fun r : (Bool × CheckState) × TypeTable =>
      (if r.1.1 then pure () else checkInOrder c block : CheckM Unit) r.1.2 r.2)
      ((do declare block ((block.head?.map (·.span)).getD {})
           isAbandoned s.errors.length ((block.head?.map (·.span)).getD {}) : CheckM Bool) s t) := rfl
  rw [run, h]
  cases b <;> rfl

/-- **What the statements of a block enter**, one after the other. -/
theorem Keeps.checkInOrder (h : Keeps c) {block : List Stmt} (hs : s.scopes ≠ [])
    (hfunctions : ∀ stmt ∈ block, ∀ f, stmt.kind = .function f → s.Declares f.name) :
    s.Enters (fun x => ∃ stmt ∈ block, stmt.kind.varName? = some x)
      (fun x => (checkInOrder c block s t).1.2.abandoned = false ∧
        ∃ stmt ∈ block, stmt.kind.varName? = some x)
      (checkInOrder c block s t).1.2 := by
  induction block generalizing s t with
  | nil => exact (Level.refl s).enters.mono (fun _ => False.elim) fun _ h => nomatch h.2
  | cons stmt rest ih =>
    obtain ⟨hstmt, hrest⟩ := List.forall_mem_cons.1 hfunctions
    obtain ⟨asked, given⟩ := level_isAbandoned
      
    have first := (h.checkStmt (t := t) hs hstmt).trans asked.enters
    rcases run : isAbandoned s.errors.length stmt.span (Checking.checkStmt c stmt s t).1.2
      (Checking.checkStmt c stmt s t).2 with ⟨⟨b, s1⟩, t1⟩
    rw [run] at first given
    rw [checkInOrder_cons run]
    cases b with
    | true =>
      refine first.mono ?_ fun x hx => nomatch (given rfl).symm.trans hx.1
      exact fun x hx => hx.elim (fun hx => ⟨stmt, .head _, hx⟩) False.elim
    | false =>
      have second := first.trans (does_recordFrom (R := Level) .statement [s1.current] stmt.span s1 t1).1.enters
      refine (second.trans (ih (second.aligned.scopes.ne_nil hs) fun stmt hstmt f hf =>
        second.kept _ (hrest stmt hstmt f hf))).mono ?_ ?_
      · rintro x (((hx | hx) | hx) | ⟨stmt', hstmt', hx⟩)
        · exact ⟨stmt, .head _, hx⟩
        · exact hx.elim
        · exact hx.elim
        · exact ⟨stmt', .tail _ hstmt', hx⟩
      · rintro x ⟨hnot, stmt', hstmt', hx⟩
        rcases List.mem_cons.1 hstmt' with rfl | hstmt'
        · exact .inl (.inl (.inl hx))
        · exact .inr ⟨hnot, stmt', hstmt', hx⟩

end Checking

/-! ### The declarations of a block -/

/-- The parts of the answers of a loop, from those of its steps. -/
theorem Gives.map_filterMapM {σ α γ δ : Type} {xs : List γ} {f : γ → StateT σ TableM (Option α)}
    {g : α → δ} {k : γ → Option δ} (h : ∀ x ∈ xs, Gives (f x) fun o => o.map g = k x) :
    Gives (xs.filterMapM f) fun as => as.map g = xs.filterMap k := by
  have loop : ∀ (l : List γ) (acc : List α), l ⊆ xs →
      Gives (List.filterMapM.loop f l acc) fun as => as.map g = acc.reverse.map g ++ l.filterMap k := by
    intro l
    induction l with
    | nil => exact fun acc _ => .pure (List.append_nil _).symm
    | cons x l ih =>
      intro acc hl
      obtain ⟨hx, hl⟩ := List.cons_subset.1 hl
      refine (h x hx).bind fun o ho => ?_
      cases o with
      | none =>
        rw [List.filterMap_cons_none ho.symm]
        exact ih acc hl
      | some a =>
        have step := ih (a :: acc) hl
        rw [List.reverse_cons, List.map_append, List.append_assoc] at step
        rw [List.filterMap_cons_some ho.symm]
        exact step
  exact loop xs [] (List.Subset.refl xs)

namespace Lowering

theorem name_declareFunction {stmt : Stmt} :
    Gives (declareFunction stmt) fun o => o.map (·.1) = stmt.kind.functionName? := by
  obtain ⟨kind, span⟩ := stmt
  cases kind with
  | function f => exact .last fun _ => .last fun _ => .last fun _ => .last fun _ => .pure rfl
  | _ => exact .pure rfl

theorem name_lowerBody {stmt : Stmt} (own : TypeScope) :
    Gives (lowerBody stmt own) fun r => r.2.map (·.1) = stmt.kind.className? := by
  obtain ⟨kind, span⟩ := stmt
  cases kind with
  | typeAlias => exact .last fun _ => .pure rfl
  | interface => exact .last fun _ => .last fun _ => .last fun _ => .last fun _ => .pure rfl
  | class_ decl => exact .last fun _ => .last fun _ => .pure rfl
  | _ => exact .pure rfl

theorem name_declareBody {params : List (String × TypeScope)} {stmt : Stmt} :
    Gives (declareBody params stmt) fun o => o.map (·.1) = stmt.kind.className? := by
  refine .last fun _ => ?_
  have lowered (own : TypeScope) : Gives (withScope do
      own.forM fun p => bind p.1 p.2
      lowerBody stmt own) fun r => r.2.map (·.1) = stmt.kind.className? :=
    .last fun _ => .bind (.last fun _ => name_lowerBody own) fun r hr => .last fun _ => .pure hr
  obtain ⟨kind, span⟩ := stmt
  cases kind with
  | typeAlias | interface | class_ =>
    refine .bind (lowered _) fun r hr => .last fun outcome => ?_
    split
    · exact .pure hr
    · exact .last fun _ => .pure hr
  | _ => exact .pure rfl

/-- **A block declares its functions and its classes.** -/
theorem names_values (block : List Stmt) :
    Gives (declareBlock block) fun values =>
      ∀ x, x ∈ values.map (·.1) ↔ ∃ stmt ∈ block, stmt.kind.hoistedName? = some x := by
  refine .last fun _ => .last fun params => ?_
  refine (Gives.map_filterMapM fun stmt _ => name_declareFunction).bind fun functions hf => ?_
  refine (Gives.map_filterMapM fun stmt _ => name_declareBody).bind fun classes hc => ?_
  refine .pure fun x => ?_
  rw [List.map_append, hf, hc, List.mem_append, List.mem_filterMap, List.mem_filterMap, ← exists_or]
  refine exists_congr fun stmt => ?_
  rw [← and_or_left]
  refine and_congr_right fun _ => ?_
  cases stmt.kind <;> simp [StmtKind.hoistedName?, StmtKind.functionName?, StmtKind.className?]

end Lowering

namespace Checking

variable {s : CheckState} {t : TypeTable} {c : Checks}

theorem enters_declare (hs : s.scopes ≠ []) (block : List Stmt) (span : Span) :
    s.Enters (fun x => ∃ stmt ∈ block, stmt.kind.hoistedName? = some x)
      (fun x => ∃ stmt ∈ block, stmt.kind.hoistedName? = some x) (declare block span s t).1.2 := by
  have lowered : s.Level (lowering span (Lowering.declareBlock block) s t).1.2 :=
    ⟨rfl, rfl, rfl, .refl _, .refl _⟩
  have names (x : String) : x ∈ (lowering span (Lowering.declareBlock block) s t).1.1.map (·.1) ↔
      ∃ stmt ∈ block, stmt.kind.hoistedName? = some x := Lowering.names_values block _ _ x
  refine (lowered.enters.trans (enters_bindAll (t := (lowering span (Lowering.declareBlock block) s t).2)
    (lowered.scopes ▸ hs) (lowering span (Lowering.declareBlock block) s t).1.1)).mono ?_ ?_
  · exact fun x hx => (names x).1 (hx.resolve_left id)
  · exact fun x hx => .inr ((names x).2 hx)

/-- **What a block enters in its scope**: its variables, functions and classes. -/
theorem Keeps.checkStatements (h : Keeps c) (hs : s.scopes ≠ []) {block : List Stmt} :
    s.Enters (fun x => ∃ stmt ∈ block, stmt.kind.valueName? = some x)
      (fun x => (checkStatements c block s t).1.2.abandoned = false ∧
        ∃ stmt ∈ block, stmt.kind.valueName? = some x)
      (checkStatements c block s t).1.2 := by
  have declared := enters_declare (t := t) hs block ((block.head?.map (·.span)).getD {})
  obtain ⟨asked, given⟩ := level_isAbandoned
    
    
  have first := declared.trans asked.enters
  rcases run : isAbandoned s.errors.length ((block.head?.map (·.span)).getD {})
    (declare block ((block.head?.map (·.span)).getD {}) s t).1.2
    (declare block ((block.head?.map (·.span)).getD {}) s t).2 with ⟨⟨b, s1⟩, t1⟩
  rw [run] at first given
  rw [checkStatements_eq run]
  cases b with
  | true =>
    refine first.mono (fun x hx => ?_) fun x hx => nomatch (given rfl).symm.trans hx.1
    obtain ⟨stmt, hstmt, hx⟩ := hx.resolve_right id
    exact ⟨stmt, hstmt, StmtKind.valueName?_eq_some.2 (.inl hx)⟩
  | false =>
    have functions : ∀ stmt ∈ block, ∀ f, stmt.kind = .function f → s1.Declares f.name :=
      fun stmt hstmt f hf => first.all _ (.inl ⟨stmt, hstmt, by rw [hf]; rfl⟩)
    refine (first.trans (h.checkInOrder (first.aligned.scopes.ne_nil hs) functions)).mono ?_ ?_
    · rintro x ((⟨stmt, hstmt, hx⟩ | hx) | ⟨stmt, hstmt, hx⟩)
      · exact ⟨stmt, hstmt, StmtKind.valueName?_eq_some.2 (.inl hx)⟩
      · exact hx.elim
      · exact ⟨stmt, hstmt, StmtKind.valueName?_eq_some.2 (.inr hx)⟩
    · rintro x ⟨hnot, stmt, hstmt, hx⟩
      rcases StmtKind.valueName?_eq_some.1 hx with hx | hx
      · exact .inl (.inl ⟨stmt, hstmt, hx⟩)
      · exact .inr ⟨hnot, stmt, hstmt, hx⟩

end Checking

/-- **Checking keeps the stacks**, at every nesting. -/
theorem Checks.keeps_within {n : Nat} : Checking.Keeps (.within n) := by
  induction n with
  | zero =>
    refine ⟨fun e expected => .pure trivial, fun body => ?_⟩
    exact level_scope (x := (pure () : CheckM Unit)) fun s _ _ => (Level.refl s).aligned
  | succ n ih =>
    refine ⟨fun e expected => ih.checkExpr e, fun body => ?_⟩
    exact level_scope (x := checkStatements (within n) body)
      fun s t hs => (ih.checkStatements hs).aligned

/-! ### Units -/

theorem heightStmts_pos (block : List Stmt) : 0 < heightStmts block := by
  induction block with
  | nil => exact Nat.one_pos
  | cons stmt block ih => exact lt_max_of_lt_right ih

/-- What is reported of a unit. -/
def CheckState.result (s : CheckState) : CheckResult where
  exprTypes := s.exprTypes
  errors := s.errors
  flow := s.flow
  declarations := s.declarations

namespace Checking

/-- The state at the entry of a unit that sees the given values. -/
def entryState (settings : Settings) (values : List (String × TypeId)) : TableM CheckState := do
  let start ← start settings values
  let (_, s) ← (recordFrom .entry [] {} : CheckM Unit).run start
  return s

/-- The state at the end of a unit that sees the given values. -/
def finalState (settings : Settings) (values : List (String × TypeId)) (unit : CodeUnit) :
    TableM CheckState := do
  let entry ← entryState settings values
  let (_, s) ← ((checks unit.statements).statements unit.statements).run entry
  return s

/-- The check of a unit reports what its last state has found. -/
theorem checkProgram_run (settings : Settings) (values : List (String × TypeId)) (unit : CodeUnit)
    (t : TypeTable) : checkProgram settings values unit t =
      ((finalState settings values unit t).1.result, (finalState settings values unit t).2) := by
  have run : checkProgram settings values unit = (do
      let s ← finalState settings values unit
      return s.result : TableM CheckResult) := by
    unfold checkProgram finalState entryState
    simp only [StateT.run_bind, bind_assoc, pure_bind]
    rfl
  rw [run, bind_of_eq (Prod.mk.eta (p := finalState settings values unit t)).symm]
  rfl

theorem finalState_eq (settings : Settings) (values : List (String × TypeId)) (unit : CodeUnit)
    (t : TypeTable) : (finalState settings values unit t).1 =
      ((checks unit.statements).statements unit.statements (entryState settings values t).1
        (entryState settings values t).2).1.2 := by
  rcases h : entryState settings values t with ⟨s, t'⟩
  unfold finalState
  rw [bind_of_eq h]
  rfl

theorem scopes_entryState (settings : Settings) (values : List (String × TypeId)) (t : TypeTable) :
    (entryState settings values t).1.scopes = [{}] := by
  unfold entryState
  rw [bind_of_eq (start_eq t)]
  rfl

variable {n : Nat} {s : CheckState} {t : TypeTable}

theorem enters_statements (hs : s.scopes ≠ []) (block : List Stmt) :
    s.Enters (fun x => ∃ stmt ∈ block, stmt.kind.valueName? = some x)
      (fun x => n ≠ 0 ∧ ((Checks.within n).statements block s t).1.2.abandoned = false ∧
        ∃ stmt ∈ block, stmt.kind.valueName? = some x)
      ((Checks.within n).statements block s t).1.2 := by
  cases n with
  | zero => exact (Level.refl s).enters.mono (fun _ => False.elim) fun _ h => absurd rfl h.1
  | succ n => exact (Checks.keeps_within.checkStatements hs).mono (fun _ => id) fun _ h => h.2

/-- A statement keeps the stacks wherever it stands in a block. -/
theorem aligned_checkStmt (hs : s.scopes ≠ []) (before : List Stmt) (stmt : Stmt) (after : List Stmt)
    (span : Span) :
    let r := (do
      declare (before ++ stmt :: after) span
      checkInOrder (.within n) before : CheckM Unit) s t
    r.1.2.Aligned (checkStmt (.within n) stmt r.1.2 r.2).1.2 := by
  intro r
  have declared := enters_declare (t := t) hs (before ++ stmt :: after) span
  have functions {s' : CheckState} (h : ∀ x, (∃ stmt' ∈ before ++ stmt :: after,
      stmt'.kind.hoistedName? = some x) → s'.Declares x) {stmt' : Stmt}
      (hstmt : stmt' ∈ before ++ stmt :: after) (f : FunctionDecl Stmt)
      (hf : stmt'.kind = .function f) : s'.Declares f.name :=
    h f.name ⟨stmt', hstmt, by rw [hf]; rfl⟩
  have nonempty := declared.aligned.scopes.ne_nil hs
  have ran : (declare (before ++ stmt :: after) span s t).1.2.Enters _ _ r.1.2 :=
    Checks.keeps_within.checkInOrder nonempty fun stmt' hstmt' =>
      functions declared.all (List.mem_append_left _ hstmt')
  refine (Checks.keeps_within.checkStmt (ran.aligned.scopes.ne_nil nonempty) ?_).aligned
  exact functions (fun x hx => ran.kept x (declared.all x hx))
    (List.mem_append_right _ (.head _))

end Checking

/-- A unit ends with one scope, which has its declarations. -/
theorem mem_declarations {s : CheckState} (h : SameOuter [{}] s.scopes) (x : String) :
    x ∈ s.declarations.map (·.1) ↔ s.Declares x := by
  obtain ⟨scope, hs⟩ := List.length_eq_one_iff.1 h.length
  have declared : s.declarations.map (·.1) = scope.bindings.map (·.1) := by
    unfold CheckState.declarations
    rw [hs]
    simp
  rw [declared, ← Scope.has_iff_mem]
  unfold Declares
  simp [hs]

/-- **Stacks are balanced and only names of the top level are exported.**  The check of an
expression or of a block leaves all scopes as they were, that of a statement, and of the
statements of a block, changes the innermost scope only; the outer functions, the outer
frames of breaks and the type of `this` are the same, also if the unit is given up on the way.
If it is not, the declarations of the unit have the names of the variables, functions and
classes at its top level. -/
theorem stacks_balanced :
    (∀ n e expected (s : CheckState) t, s.Level ((Checks.within n).expr e expected s t).1.2) ∧
    (∀ n body (s : CheckState) t, s.Level ((Checks.within n).block body s t).1.2) ∧
    (∀ n before stmt after span (s : CheckState) t, s.scopes ≠ [] →
      let r := (do
        declare (before ++ stmt :: after) span
        checkInOrder (.within n) before : CheckM Unit) s t
      r.1.2.Aligned (checkStmt (.within n) stmt r.1.2 r.2).1.2) ∧
    (∀ n block (s : CheckState) t, s.scopes ≠ [] →
      s.Aligned ((Checks.within n).statements block s t).1.2) ∧
    ∀ settings values unit t, (finalState settings values unit t).1.abandoned = false →
      ∀ x, x ∈ (checkProgram settings values unit t).1.declarations.map (·.1) ↔
        ∃ stmt ∈ unit.statements, stmt.kind.valueName? = some x := by
  refine ⟨fun n e expected s t => (Checks.keeps_within.expr e expected s t).1,
    fun n body s t => (Checks.keeps_within.block body s t).1,
    fun n before stmt after span s t hs => aligned_checkStmt hs before stmt after span,
    fun n block s t hs => (enters_statements hs block).aligned,
    fun settings values unit t hnot x => ?_⟩
  rw [finalState_eq] at hnot
  rw [checkProgram_run, finalState_eq]
  have scopes := scopes_entryState settings values t
  generalize (entryState settings values t).1 = s₀ at *
  generalize (entryState settings values t).2 = t₀ at *
  have entered := enters_statements (n := heightStmts unit.statements) (t := t₀)
    (by rw [scopes]; exact nofun) unit.statements
  refine (mem_declarations (scopes ▸ entered.aligned.scopes) x).trans
    ⟨fun hx => ?_, fun hx => entered.all x ⟨(heightStmts_pos _).ne', hnot, hx⟩⟩
  refine (entered.names x hx).resolve_left ?_
  rintro ⟨scope, outer, hs, hhas⟩
  rw [scopes] at hs
  cases hs
  exact hhas rfl

/-- `const a = "a"; function f(p) { let b = p; } if (a) { const d = "d"; } class C {}` -/
def nestedUnit : CodeUnit where
  path := "a.ts"
  statements :=
    [.mk (.var .const "a" none (some (.mk 1 (.string "a") {}))) {},
      .mk (.function { name := "f", params := [{ name := "p" }]
                       body := some [.mk (.var .let_ "b" none (some (.mk 2 (.ident "p") {}))) {}] }) {},
      .mk (.if_ (.mk 3 (.ident "a") {})
        [.mk (.var .const "d" none (some (.mk 4 (.string "d") {}))) {}] none) {},
      .mk (.class_ { name := "C" }) {}]

set_option maxRecDepth 20000 in
/-- The names of nested scopes are not exported. -/
theorem stacks_balanced_nested :
    (finalState {} [] nestedUnit (.withLimits {})).1.abandoned = false ∧
      ∀ x, x ∈ (checkProgram {} [] nestedUnit (.withLimits {})).1.declarations.map (·.1) ↔
        ∃ stmt ∈ nestedUnit.statements, stmt.kind.valueName? = some x := by
  have checked : (finalState {} [] nestedUnit (.withLimits {})).1.abandoned = false := by cbv
  exact ⟨checked, stacks_balanced.2.2.2.2 _ _ _ _ checked⟩

set_option maxRecDepth 20000 in
/-- **More errors follow a tripped guard**: an array with a function whose body is abandoned goes
on with its next element. -/
theorem errors_behind_tripped_guard :
    let deep := TypeExpr.named "Deep"
    let body := [Stmt.mk (.var .let_ "d" (some (deep [.ofName "string"])) (some (.mk 1 .null {}))) {}]
    let elements := [Expr.mk 2 (.function { params := [], body := .block body }) {},
      .mk 3 (.ident "missing") {}]
    problems [.mk (.typeAlias "Deep" [{ name := "X" }] (deep [.array (.ofName "X")])) {},
      .mk (.expr (.mk 4 (.array elements) {})) {}] { maxDepth := 3 } =
    [.depthExceeded "Deep" 3, .undefinedName "missing"] := by
  cbv

set_option maxRecDepth 20000 in
/-- **The order of type aliases matters**: an argument is compared with its bound before the alias
that it names has a body. -/
theorem order_of_aliases_matters :
    let box := Stmt.mk (.typeAlias "Box" [{ name := "T", bound := some (.ofName "string") }]
      (.ofName "T")) {}
    let a := Stmt.mk (.typeAlias "A" [] (.named "Box" [.ofName "B"])) {}
    let b := Stmt.mk (.typeAlias "B" [] (.stringLit "x")) {}
    (problems [box, a, b] {}).length = 1 ∧ problems [box, b, a] {} = [] := by
  cbv

end GradualTyping
