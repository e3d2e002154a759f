/-
# What a program does to a name

A variable is followed through a check under conditions on the text of the program.
Each is the absence of some expressions and statements, so there is one search for
all of them (`Expr.has`), and a condition is a set of patterns that are not found
(`Expr.Avoids`).  The patterns about a name are where it is assigned to, where it is
declared, where it is asked for its type, and the scopes that mix up two declarations of
it.
-/

import GradualTyping.Checking.Assigned
import GradualTyping.Proofs.Program.Parts

namespace GradualTyping

open List

/-- Expressions and statements to look for. -/
structure Pattern where
  expr : ExprKind → Bool := fun _ => false
  stmt : StmtKind → Bool := fun _ => false
  /-- Look into the bodies of functions too. -/
  inside : Bool := true

variable (p : Pattern)

mutual
/-- An expression has a part that is looked for, which may be itself. -/
def Expr.has : Expr → Bool
  | .mk _ kind _ => p.expr kind || kind.has

def ExprKind.has : ExprKind → Bool
  | .template parts => hasTemplate parts
  | .object members => hasMembers members
  | .array elements => hasExprs elements
  | .call callee _ args => callee.has || hasExprs args
  | .new callee _ args => callee.has || hasExprs args
  | .member object _ => object.has
  | .index object index => object.has || index.has
  | .function ⟨_, _, _, _, body⟩ => p.inside && hasBody body
  | .binary _ left right => left.has || right.has
  | .unary _ operand => operand.has
  | .conditional cond yes no => cond.has || (yes.has || no.has)
  | .await value => value.has
  | .as_ value _ => value.has
  | .nonNull value => value.has
  | .assign target value => target.has || value.has
  | _ => false

/-- A statement has a part that is looked for, which may be itself. -/
def Stmt.has : Stmt → Bool
  | .mk kind _ => p.stmt kind || kind.has

def StmtKind.has : StmtKind → Bool
  | .class_ ⟨_, _, fields, constructor, methods⟩ =>
    hasFields fields || (p.inside && (hasConstructor constructor || hasFunctions methods))
  | .function ⟨_, _, _, _, _, _, _, body⟩ => p.inside && hasBlock body
  | .var _ _ _ init => hasOption init
  | .expr value => value.has
  | .return_ value => hasOption value
  | .if_ cond yes no => cond.has || (hasStmts yes || hasBlock no)
  | .switch subject cases => subject.has || hasCases cases
  | .while_ cond body => cond.has || hasStmts body
  | .block body => hasStmts body
  | .throw_ value => value.has
  | _ => false

def hasExprs : List Expr → Bool
  | [] => false
  | e :: es => e.has || hasExprs es

def hasStmts : List Stmt → Bool
  | [] => false
  | s :: ss => s.has || hasStmts ss

def hasOption : Option Expr → Bool
  | none => false
  | some e => e.has

def hasBlock : Option (List Stmt) → Bool
  | none => false
  | some ss => hasStmts ss

def hasTemplate : List (TemplatePart Expr) → Bool
  | [] => false
  | .text _ :: ps => hasTemplate ps
  | .embedded e :: ps => e.has || hasTemplate ps

def hasMembers : List (ObjectMember Expr) → Bool
  | [] => false
  | .property _ e :: ms => e.has || hasMembers ms
  | .spread e :: ms => e.has || hasMembers ms

def hasBody : FunctionBody Expr Stmt → Bool
  | .block body => hasStmts body
  | .expr e => e.has

def hasFields : List (ClassField Expr) → Bool
  | [] => false
  | ⟨_, _, _, _, init⟩ :: fs => hasOption init || hasFields fs

def hasConstructor : Option (ConstructorDecl Stmt) → Bool
  | none => false
  | some ⟨_, body⟩ => hasStmts body

def hasFunctions : List (FunctionDecl Stmt) → Bool
  | [] => false
  | ⟨_, _, _, _, _, _, _, body⟩ :: fs => hasBlock body || hasFunctions fs

def hasCases : List (SwitchCase Expr Stmt) → Bool
  | [] => false
  | ⟨test, body, _⟩ :: cs => hasOption test || (hasStmts body || hasCases cs)
end

section Lists

variable {p}

theorem hasExprs_eq_false {es : List Expr} : hasExprs p es = false ↔ ∀ e ∈ es, e.has p = false := by
  induction es with
  | nil => simp [hasExprs]
  | cons e es ih => simp [hasExprs, ih]

theorem hasStmts_eq_false {body : List Stmt} :
    hasStmts p body = false ↔ ∀ s ∈ body, s.has p = false := by
  induction body with
  | nil => simp [hasStmts]
  | cons s body ih => simp [hasStmts, ih]

theorem hasOption_eq_false {o : Option Expr} :
    hasOption p o = false ↔ ∀ e ∈ o.toList, e.has p = false := by
  cases o <;> simp [hasOption]

theorem hasBlock_eq_false {o : Option (List Stmt)} :
    hasBlock p o = false ↔ ∀ body ∈ o.toList, hasStmts p body = false := by
  cases o <;> simp [hasBlock]

theorem hasTemplate_eq_false {parts : List (TemplatePart Expr)} :
    hasTemplate p parts = false ↔
      ∀ e ∈ parts.filterMap TemplatePart.embedded?, e.has p = false := by
  induction parts with
  | nil => simp [hasTemplate]
  | cons part parts ih => cases part <;> simp [hasTemplate, ih, TemplatePart.embedded?]

theorem hasMembers_eq_false {members : List (ObjectMember Expr)} :
    hasMembers p members = false ↔ ∀ e ∈ members.map ObjectMember.value, e.has p = false := by
  induction members with
  | nil => simp [hasMembers]
  | cons m members ih => cases m <;> simp [hasMembers, ih, ObjectMember.value]

theorem hasFields_eq_false {fields : List (ClassField Expr)} :
    hasFields p fields = false ↔ ∀ e ∈ fields.filterMap (·.init), e.has p = false := by
  induction fields with
  | nil => simp [hasFields]
  | cons field fields ih =>
    obtain ⟨_, _, _, _, init⟩ := field
    cases init <;> simp [hasFields, hasOption, ih]

theorem hasFunctions_eq_false {fs : List (FunctionDecl Stmt)} :
    hasFunctions p fs = false ↔ ∀ body ∈ fs.filterMap (·.body), hasStmts p body = false := by
  induction fs with
  | nil => simp [hasFunctions]
  | cons f fs ih =>
    obtain ⟨_, _, _, _, _, _, _, body⟩ := f
    cases body <;> simp [hasFunctions, hasBlock, ih]

theorem hasCases_eq_false {cases : List Case} :
    hasCases p cases = false ↔ (∀ e ∈ cases.filterMap (·.test), e.has p = false) ∧
      ∀ body ∈ cases.map (·.body), hasStmts p body = false := by
  induction cases with
  | nil => simp [hasCases]
  | cons clause cases ih =>
    obtain ⟨test, body, span⟩ := clause
    cases test <;> simp [hasCases, hasOption, ih, and_assoc, and_left_comm]

/-- The parts of an expression belong to a function. -/
def ExprKind.defers : ExprKind → Bool
  | .function _ => true
  | _ => false

/-- The blocks of a statement are bodies of functions. -/
def StmtKind.defers : StmtKind → Bool
  | .class_ _ | .function _ => true
  | _ => false

theorem ExprKind.has_eq_false {kind : ExprKind} (now : kind.defers = false) :
    kind.has p = false ↔ ∀ e ∈ kind.parts, e.has p = false := by
  cases kind with
  | function => cases now
  | _ => simp [has, parts, hasExprs_eq_false, hasTemplate_eq_false, hasMembers_eq_false]

theorem StmtKind.has_eq_false {kind : StmtKind} :
    kind.has p = false ↔ (∀ e ∈ kind.parts, e.has p = false) ∧
      ((kind.defers = true → p.inside = true) → ∀ body ∈ kind.blocks, hasStmts p body = false) := by
  cases kind with
  | class_ c =>
    obtain ⟨_, _, fields, constructor, methods⟩ := c
    cases constructor <;> cases h : p.inside <;> simp [has, parts, blocks, defers, hasConstructor,
      h, hasFields_eq_false, hasFunctions_eq_false]
  | function f =>
    obtain ⟨_, _, _, _, _, _, _, body⟩ := f
    cases h : p.inside <;> simp [has, parts, blocks, defers, h, hasBlock_eq_false]
  | _ => simp [has, parts, blocks, defers, hasOption_eq_false, hasBlock_eq_false,
      hasCases_eq_false, and_assoc]

end Lists

/-! ### Breaks -/

mutual
/-- Control may leave a statement by a `break` of its own. -/
def Stmt.leaves : Stmt → Bool
  | .mk kind _ => kind.leaves

def StmtKind.leaves : StmtKind → Bool
  | .if_ _ yes no => leavesBlock yes || leavesOption no
  | .block body => leavesBlock body
  | .break_ => true
  | _ => false

def leavesBlock : List Stmt → Bool
  | [] => false
  | s :: ss => s.leaves || leavesBlock ss

def leavesOption : Option (List Stmt) → Bool
  | none => false
  | some ss => leavesBlock ss
end

/-! ### Declarations -/

/-- A statement enters a name in the block around it, as one that may be assigned to or as
a constant. -/
def StmtKind.introduces (x : String) (mutable : Bool) : StmtKind → Bool
  | .var kind name _ _ => name == x && decide (kind = .let_) == mutable
  | .function f => f.name == x && !mutable
  | .class_ c => c.name == x && !mutable
  | _ => false

/-- A block enters a name. -/
def introducesIn (x : String) (mutable : Bool) (body : List Stmt) : Bool :=
  body.any (·.kind.introduces x mutable)

/-- A name is among the parameters of a function. -/
def isParam (x : String) (params : List Param) (rest : Option Param) : Bool :=
  params.any (·.name == x) || rest.any (·.name == x)

/-! ### Scopes -/

/-- Scopes to look for: functions, with their parameters and bodies, and blocks. -/
structure ScopePattern where
  function : List Param → Option Param → FunctionBody Expr Stmt → Bool
  block : List Stmt → Bool := fun _ => false

/-- An expression opens a scope that is looked for. -/
def ExprKind.opens (p : ScopePattern) : ExprKind → Bool
  | .function f => p.function f.params none f.body
  | _ => false

/-- A statement opens a scope that is looked for. -/
def StmtKind.opens (p : ScopePattern) : StmtKind → Bool
  | .class_ c =>
    c.constructor.any (fun f => p.function f.params none (.block f.body)) ||
      c.methods.any fun f => f.body.any fun body => p.function f.params f.rest (.block body)
  | .function f => f.body.any fun body => p.function f.params f.rest (.block body)
  | .if_ _ yes no => p.block yes || no.any p.block
  | .switch _ cases => cases.any (p.block ·.body)
  | .while_ _ body => p.block body
  | .block body => p.block body
  | _ => false

/-- The expressions and statements that open a scope. -/
def ScopePattern.pattern (p : ScopePattern) : Pattern where
  expr := ExprKind.opens p
  stmt := StmtKind.opens p

section Opens

variable {p : ScopePattern}

theorem StmtKind.opens_constructor {c : Class} {f : ConstructorDecl Stmt}
    (h : (StmtKind.class_ c).opens p = false) (hf : c.constructor = some f) :
    p.function f.params none (.block f.body) = false := by
  have h := (Bool.or_eq_false_iff.1 h).1
  rwa [hf] at h

theorem StmtKind.opens_method {c : Class} {f : FunctionDecl Stmt} {body : List Stmt}
    (h : (StmtKind.class_ c).opens p = false) (hf : f ∈ c.methods) (hbody : f.body = some body) :
    p.function f.params f.rest (.block body) = false := by
  have h := any_eq_false.1 (Bool.or_eq_false_iff.1 h).2 f hf
  rw [hbody] at h
  exact Bool.eq_false_iff.2 h

theorem StmtKind.opens_function {f : FunctionDecl Stmt} {body : List Stmt}
    (h : (StmtKind.function f).opens p = false) (hbody : f.body = some body) :
    p.function f.params f.rest (.block body) = false := by
  have h : f.body.any _ = false := h
  rwa [hbody] at h

theorem StmtKind.opens_case {subject : Expr} {cases : List Case} {clause : Case}
    (h : (StmtKind.switch subject cases).opens p = false) (hclause : clause ∈ cases) :
    p.block clause.body = false :=
  Bool.eq_false_iff.2 (any_eq_false.1 h clause hclause)

end Opens

/-- Functions with a parameter of a name. -/
def ScopePattern.params (x : String) : ScopePattern where
  function params rest _ := isParam x params rest

/-- The declarations of a name. -/
def Pattern.declares (x : String) : Pattern where
  expr := ExprKind.opens (.params x)
  stmt kind := kind.introduces x true || kind.introduces x false || kind.opens (.params x)

/-! ### Clashes

What is known of a name is restored at the end of a scope that enters it.  A `break` leaves
the scope earlier, and a function starts from the declared types of all variables that may
be assigned to, the inner ones after the outer ones: a constant in the scope of such a
variable gets the type of the variable there. -/

/-- All functions. -/
def ScopePattern.functions : ScopePattern where
  function _ _ _ := true

/-- A block enters a name as a constant and has a function inside. -/
def coversBlock (x : String) (body : List Stmt) : Bool :=
  introducesIn x false body && hasStmts ScopePattern.functions.pattern body

/-- The body of a function enters a name as a constant and has a function inside. -/
def coversBody (x : String) : FunctionBody Expr Stmt → Bool
  | .block body => coversBlock x body
  | .expr _ => false

/-- The scopes that enter a name as a constant and have a function inside. -/
def ScopePattern.covers (x : String) : ScopePattern where
  function _ _ := coversBody x
  block := coversBlock x

/-- A block enters a name and is left by a `break`, or enters it as a variable and has a
scope inside where a constant covers it. -/
def clashesBlock (x : String) (body : List Stmt) : Bool :=
  (introducesIn x true body || introducesIn x false body) && leavesBlock body ||
    introducesIn x true body && hasStmts (ScopePattern.covers x).pattern body

/-- A function is left by a `break`, or its body clashes with itself or with the
parameters. -/
def clashesBody (x : String) (params : List Param) (rest : Option Param)
    (body : FunctionBody Expr Stmt) : Bool :=
  (match body with
    | .block body => leavesBlock body || clashesBlock x body
    | .expr _ => false) ||
  isParam x params rest && (coversBody x body || hasBody (ScopePattern.covers x).pattern body)

/-- The scopes where two declarations of a name clash, or a declaration and a `break`. -/
def ScopePattern.clashes (x : String) : ScopePattern where
  function := clashesBody x
  block := clashesBlock x

/-! ### Assignments and questions -/

/-- The assignments to a name, outside the bodies of functions. -/
def Pattern.assigns (x : String) : Pattern where
  expr
    | .assign target _ => target.ident? == some x
    | _ => false
  inside := false

section Assigned

variable {x : String}

theorem or_of_mem_append {l l' : List String} {b b' : Bool} (h : x ∈ l → b = true)
    (h' : x ∈ l' → b' = true) (hx : x ∈ l ++ l') : (b || b') = true :=
  Bool.or_eq_true_iff.2 ((mem_append.1 hx).imp h h')

mutual
theorem Expr.has_of_mem_assigned : ∀ {e : Expr}, x ∈ e.assigned → e.has (.assigns x) = true
  | .mk _ kind _, h => Bool.or_eq_true_iff.2 (ExprKind.has_of_mem_assigned (show x ∈ kind.assigned from h))

theorem ExprKind.has_of_mem_assigned : ∀ {kind : ExprKind}, x ∈ kind.assigned →
    (Pattern.assigns x).expr kind = true ∨ kind.has (.assigns x) = true
  | .assign _ _, h => (mem_append.1 h).imp
      (fun h => beq_iff_eq.2 (Option.mem_toList.1 h)) fun h =>
        Bool.or_eq_true_iff.2 (.inr (Expr.has_of_mem_assigned h))
  | .binary _ _ _, h => .inr (or_of_mem_append Expr.has_of_mem_assigned Expr.has_of_mem_assigned h)
  | .unary _ operand, h => .inr (Expr.has_of_mem_assigned (e := operand) h)
  | .await value, h => .inr (Expr.has_of_mem_assigned (e := value) h)
  | .nonNull value, h => .inr (Expr.has_of_mem_assigned (e := value) h)
  | .as_ value _, h => .inr (Expr.has_of_mem_assigned (e := value) h)
  | .member object _, h => .inr (Expr.has_of_mem_assigned (e := object) h)
  | .index _ _, h => .inr (or_of_mem_append Expr.has_of_mem_assigned Expr.has_of_mem_assigned h)
  | .call _ _ _, h => .inr (or_of_mem_append Expr.has_of_mem_assigned hasExprs_of_mem_assigned h)
  | .new _ _ _, h => .inr (or_of_mem_append Expr.has_of_mem_assigned hasExprs_of_mem_assigned h)
  | .conditional cond yes no, h =>
    .inr (or_of_mem_append Expr.has_of_mem_assigned
      (or_of_mem_append Expr.has_of_mem_assigned Expr.has_of_mem_assigned)
      (append_assoc .. ▸ h : x ∈ cond.assigned ++ (yes.assigned ++ no.assigned)))
  | .array elements, h => .inr (hasExprs_of_mem_assigned (show x ∈ assignedInExprs elements from h))
  | .object members, h => .inr (hasMembers_of_mem_assigned (show x ∈ assignedInMembers members from h))

theorem Stmt.has_of_mem_assigned : ∀ {s : Stmt}, x ∈ s.assigned → s.has (.assigns x) = true
  | .mk kind _, h => by
    rw [Stmt.has, StmtKind.has_of_mem_assigned (show x ∈ kind.assigned from h), Bool.or_true]

theorem StmtKind.has_of_mem_assigned : ∀ {kind : StmtKind}, x ∈ kind.assigned →
    kind.has (.assigns x) = true
  | .var _ _ _ (some init), h => Expr.has_of_mem_assigned (e := init) h
  | .expr value, h => Expr.has_of_mem_assigned (e := value) h
  | .throw_ value, h => Expr.has_of_mem_assigned (e := value) h
  | .return_ (some value), h => Expr.has_of_mem_assigned (e := value) h
  | .if_ _ _ none, h => or_of_mem_append Expr.has_of_mem_assigned
      (fun h => Bool.or_eq_true_iff.2 (.inl (hasStmts_of_mem_assigned h))) h
  | .if_ cond yes (some no), h =>
    or_of_mem_append Expr.has_of_mem_assigned
      (or_of_mem_append hasStmts_of_mem_assigned fun h : x ∈ assignedIn no => hasStmts_of_mem_assigned h)
      (append_assoc .. ▸ h : x ∈ cond.assigned ++ (assignedIn yes ++ assignedIn no))
  | .while_ _ _, h => or_of_mem_append Expr.has_of_mem_assigned hasStmts_of_mem_assigned h
  | .switch _ _, h => or_of_mem_append Expr.has_of_mem_assigned hasCases_of_mem_assigned h
  | .block body, h => hasStmts_of_mem_assigned (show x ∈ assignedIn body from h)

theorem hasExprs_of_mem_assigned : ∀ {es : List Expr}, x ∈ assignedInExprs es →
    hasExprs (.assigns x) es = true
  | [], h => nomatch h
  | _ :: _, h => or_of_mem_append Expr.has_of_mem_assigned hasExprs_of_mem_assigned h

theorem hasMembers_of_mem_assigned : ∀ {members : List (ObjectMember Expr)},
    x ∈ assignedInMembers members → hasMembers (.assigns x) members = true
  | [], h => nomatch h
  | .property _ _ :: _, h => or_of_mem_append Expr.has_of_mem_assigned hasMembers_of_mem_assigned h
  | .spread _ :: _, h => or_of_mem_append Expr.has_of_mem_assigned hasMembers_of_mem_assigned h

/-- What is collected as assigned in some statements is assigned there. -/
theorem hasStmts_of_mem_assigned : ∀ {body : List Stmt}, x ∈ assignedIn body →
    hasStmts (.assigns x) body = true
  | [], h => nomatch h
  | _ :: _, h => or_of_mem_append Stmt.has_of_mem_assigned hasStmts_of_mem_assigned h

theorem hasCases_of_mem_assigned : ∀ {cases : List Case}, x ∈ assignedInCases cases →
    hasCases (.assigns x) cases = true
  | [], h => nomatch h
  | ⟨_, _, _⟩ :: _, h => Bool.or_eq_true_iff.2 <| .inr <|
    or_of_mem_append hasStmts_of_mem_assigned hasCases_of_mem_assigned h
end

end Assigned

/-- A condition may ask for the type of a variable: whether it is an instance of a
class, or what a predicate says of it. -/
def Expr.asksType (x : String) : Expr → Bool
  | .mk _ (.unary .not operand) _ => operand.asksType x
  | .mk _ (.binary .and left right) _ => left.asksType x || right.asksType x
  | .mk _ (.binary .or left right) _ => left.asksType x || right.asksType x
  | .mk _ (.binary .instanceOf left _) _ => left.ident? == some x
  | .mk _ (.call _ _ args) _ => args.any (·.ident? == some x)
  | _ => false

/-- The places where a variable is asked for its type. -/
def Pattern.asks (x : String) : Pattern where
  expr
    | .binary op left _ => (op == .and || op == .or) && left.asksType x
    | .conditional cond _ _ => cond.asksType x
    | _ => false
  stmt
    | .if_ cond _ _ => cond.asksType x
    | .while_ cond _ => cond.asksType x
    | .expr (.mk _ (.call _ _ args) _) => args.any (·.ident? == some x)
    | _ => false

/-! ### Absence -/

/-- An expression has none of some patterns. -/
def Expr.Avoids (P : Pattern → Prop) (e : Expr) : Prop := ∀ p, P p → e.has p = false

/-- The parts of an expression have none of some patterns. -/
def ExprKind.Avoids (P : Pattern → Prop) (kind : ExprKind) : Prop := ∀ p, P p → kind.has p = false

/-- A statement has none of some patterns. -/
def Stmt.Avoids (P : Pattern → Prop) (s : Stmt) : Prop := ∀ p, P p → s.has p = false

/-- The parts of a statement have none of some patterns. -/
def StmtKind.Avoids (P : Pattern → Prop) (kind : StmtKind) : Prop := ∀ p, P p → kind.has p = false

/-- No statement of a block has one of some patterns. -/
def BlockAvoids (P : Pattern → Prop) (body : List Stmt) : Prop := ∀ s ∈ body, s.Avoids P

/-- The body of a function has none of some patterns. -/
def BodyAvoids (P : Pattern → Prop) : FunctionBody Expr Stmt → Prop
  | .block body => BlockAvoids P body
  | .expr e => e.Avoids P

section Avoids

variable {P Q : Pattern → Prop}

theorem Expr.Avoids.parts {e : Expr} (h : e.Avoids P) : e.kind.Avoids P := by
  obtain ⟨id, kind, span⟩ := e
  exact fun p hp => (Bool.or_eq_false_iff.1 (h p hp)).2

theorem Expr.Avoids.whole {e : Expr} (h : e.Avoids P) {p : Pattern} (hp : P p) :
    p.expr e.kind = false := by
  obtain ⟨id, kind, span⟩ := e
  exact (Bool.or_eq_false_iff.1 (h p hp)).1

theorem Stmt.Avoids.parts {s : Stmt} (h : s.Avoids P) : s.kind.Avoids P := by
  obtain ⟨kind, span⟩ := s
  exact fun p hp => (Bool.or_eq_false_iff.1 (h p hp)).2

theorem Stmt.Avoids.whole {s : Stmt} (h : s.Avoids P) {p : Pattern} (hp : P p) :
    p.stmt s.kind = false := by
  obtain ⟨kind, span⟩ := s
  exact (Bool.or_eq_false_iff.1 (h p hp)).1

theorem Expr.Avoids.mono {e : Expr} (h : e.Avoids P) (hQ : ∀ p, Q p → P p) : e.Avoids Q :=
  fun p hp => h p (hQ p hp)

theorem BlockAvoids.mono {body : List Stmt} (h : BlockAvoids P body) (hQ : ∀ p, Q p → P p) :
    BlockAvoids Q body :=
  fun s hs p hp => h s hs p (hQ p hp)

theorem blockAvoids_iff {body : List Stmt} :
    BlockAvoids P body ↔ ∀ p, P p → hasStmts p body = false :=
  ⟨fun h p hp => hasStmts_eq_false.2 fun s hs => h s hs p hp,
    fun h s hs p hp => hasStmts_eq_false.1 (h p hp) s hs⟩

theorem bodyAvoids_iff {body : FunctionBody Expr Stmt} :
    BodyAvoids P body ↔ ∀ p, P p → hasBody p body = false := by
  cases body with
  | block body => exact blockAvoids_iff
  | expr e => exact Iff.rfl

end Avoids

/-! ### Parts of what has none of some patterns -/

section Parts

variable {P : Pattern → Prop} {e : Expr} {body : List Stmt}

theorem ExprKind.Avoids.part {kind : ExprKind} (h : kind.Avoids P) (now : kind.defers = false)
    (he : e ∈ kind.parts) : e.Avoids P :=
  fun p hp => (has_eq_false now).1 (h p hp) e he

/-- The body of a function has none of the patterns that are looked for in it. -/
theorem ExprKind.Avoids.function {f : FunctionExpr Expr Stmt} (h : (ExprKind.function f).Avoids P) :
    BodyAvoids (fun p => P p ∧ p.inside = true) f.body := by
  refine bodyAvoids_iff.2 fun p hp => ?_
  have h : (p.inside && hasBody p f.body) = false := h p hp.1
  rwa [hp.2, Bool.true_and] at h

variable {kind : StmtKind} (h : kind.Avoids P)

include h

theorem StmtKind.Avoids.part (he : e ∈ kind.parts) : e.Avoids P :=
  fun p hp => (has_eq_false.1 (h p hp)).1 e he

theorem StmtKind.Avoids.block (now : kind.defers = false) (hbody : body ∈ kind.blocks) :
    BlockAvoids P body :=
  blockAvoids_iff.2 fun p hp => (has_eq_false.1 (h p hp)).2 (fun e => by cases now ▸ e) body hbody

theorem StmtKind.Avoids.function (hbody : body ∈ kind.blocks) :
    BlockAvoids (fun p => P p ∧ p.inside = true) body :=
  blockAvoids_iff.2 fun p hp => (has_eq_false.1 (h p hp.1)).2 (fun _ => hp.2) body hbody

end Parts

end GradualTyping
