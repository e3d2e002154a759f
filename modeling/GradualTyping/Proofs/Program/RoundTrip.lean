/-
# Reading undoes writing

A unit, a statement, an expression, a written type and a diagnostic are read back from the
JSON value that is written for them, if their numbers fit the widths that the reader asks
for (`InRange`): 32 bits for the numbers of expressions and for lines and columns, 64 bits
for offsets.

The reader descends as far as its value is nested.  So one level says: if the parts of a
value are read back where they are nested at most `n` deep, then the value is where it is
nested at most `n + 1` deep (`TypeExpr.readStep_toJson`, `ProgramReader.exprKind?_fields`,
`ProgramReader.stmtKind?_fields`).  No field of a kind has the name of a field that stands
beside it.
-/

import GradualTyping.Diagnostic.Json
import GradualTyping.Proofs.Program.Parts
import Mathlib.Order.Lattice

namespace GradualTyping

open List

open Json

/-! ### Numbers in range -/

/-- The numbers of a span fit their widths. -/
structure Span.InRange (s : Span) : Prop where
  start : s.start < UInt64.size
  stop : s.stop < UInt64.size
  line : s.line < UInt32.size
  column : s.column < UInt32.size

/-- All numbers in a written type fit their widths. -/
inductive TypeExpr.InRange : TypeExpr → Prop
  | mk {t : TypeExpr} (types : ∀ s ∈ t.written.types, InRange s)
    (spans : ∀ s ∈ t.written.spans, s.InRange) : InRange t

structure Written.InRange (w : Written) : Prop where
  types : ∀ t ∈ w.types, t.InRange
  spans : ∀ s ∈ w.spans, s.InRange

mutual
/-- All numbers in an expression fit their widths. -/
inductive Expr.InRange : Expr → Prop
  | mk {id : Nat} {kind : ExprKind} {span : Span} (number : id < UInt32.size) (place : span.InRange)
    (written : kind.written.InRange) (parts : ∀ e ∈ kind.parts, Expr.InRange e)
    (blocks : ∀ block ∈ kind.blocks, ∀ s ∈ block, Stmt.InRange s) : Expr.InRange (.mk id kind span)

/-- All numbers in a statement fit their widths. -/
inductive Stmt.InRange : Stmt → Prop
  | mk {kind : StmtKind} {span : Span} (place : span.InRange) (written : kind.written.InRange)
    (parts : ∀ e ∈ kind.parts, Expr.InRange e)
    (blocks : ∀ block ∈ kind.blocks, ∀ s ∈ block, Stmt.InRange s) : Stmt.InRange (.mk kind span)
end

def CodeUnit.InRange (u : CodeUnit) : Prop := ∀ s ∈ u.statements, s.InRange

/-! ### Fields and names -/

namespace Json

/-- What is written for `a` is read back, if it is nested at most `n` deep. -/
def Restores {α : Type} (read : Json → Option α) (write : α → Json) (n : Nat) (a : α) : Prop :=
  (write a).height ≤ n → read (write a) = some a

@[simp] theorem get?_cons (k name : String) (v : Json) (fields : List (String × Json)) :
    (Json.object ((k, v) :: fields)).get? name =
      if k = name then some v else (Json.object fields).get? name := by
  by_cases h : k = name <;> simp [get?, h]

theorem heightFields_append (a b : List (String × Json)) :
    heightFields (a ++ b) = max (heightFields a) (heightFields b) := by
  induction a with
  | nil => simp [heightFields]
  | cons p a ih => simp [heightFields, ih, Nat.max_assoc]

theorem toNatBelow?_ofNat {bound n : Nat} (h : n < bound) :
    (ofNat n).toNatBelow? bound = some n := by
  simp [ofNat, toNatBelow?, h]

/-- The tag of a value decides which branch of its reader is taken. -/
theorem bind_tag {α : Type} {x : Option String} {tag : String} {f : String → Option α}
    (h : x = some tag) : (x >>= f) = f tag := by
  rw [h]
  rfl

theorem toUInt64?_ofNat {n : Nat} (h : n < UInt64.size) : (ofNat n).toUInt64? = some n := by
  rw [toUInt64?, toNatBelow?_ofNat h]

theorem toUInt32?_ofNat {n : Nat} (h : n < UInt32.size) : (ofNat n).toUInt32? = some n := by
  rw [toUInt32?, toNatBelow?_ofNat h]

end Json

attribute [local simp] required? optional? defaulted? toString? toBool? toList? listOf? toDouble?
  Json.height heightItems Json.heightFields kindField? tagOf? flagField? listField? spanField?
  tagged ofKind

theorem Span.ofJson?_toJson {s : Span} (h : s.InRange) : Span.ofJson? s.toJson = some s := by
  -- The widths are too large for the kernel to compute with, so no step is left to it.
  simp -implicitDefEqProofs [Span.ofJson?, Span.toJson, Span.fields, toUInt64?_ofNat h.start,
    toUInt64?_ofNat h.stop, toUInt32?_ofNat h.line, toUInt32?_ofNat h.column]

@[simp] theorem read_modifier (m : Modifier) : looseNameOf? Modifier.names m.toJson = some m := by
  cases m <;> rfl

@[simp] theorem read_variance (v : Option Variance) :
    nullable? (looseNameOf? Variance.names) (ofOption Variance.toJson v) = some v := by
  cases v with
  | none => rfl
  | some v => cases v <;> rfl

@[simp] theorem read_binaryOp (op : BinaryOp) :
    looseNameOf? BinaryOp.names (.string (nameIn BinaryOp.names op)) = some op := by
  cases op <;> rfl

@[simp] theorem read_unaryOp (op : UnaryOp) :
    looseNameOf? UnaryOp.names (.string (nameIn UnaryOp.names op)) = some op := by
  cases op <;> rfl

@[simp] theorem read_varKind (kind : VarKind) :
    looseNameOf? VarKind.names (.string (nameIn VarKind.names kind)) = some kind := by
  cases kind <;> rfl

@[simp] theorem read_diagnosticKind (kind : DiagnosticKind) :
    nameOf? DiagnosticKind.names (.string (nameIn DiagnosticKind.names kind)) = some kind := by
  cases kind <;> rfl

/-- The parts of a template are read back from what `writeAll` writes for them. -/
theorem read_template {α : Type} {read : Json → Option α} {write : α → Json} {kind field : String}
    {n : Nat} (writeAll : List (TemplatePart α) → List Json) (hkind : "text" ≠ kind)
    (hfield : "kind" ≠ field) (nil : writeAll [] = []) (text : ∀ s ps, writeAll (.text s :: ps) =
      tagged "text" [("text", .string s)] :: writeAll ps) (embedded : ∀ a ps,
      writeAll (.embedded a :: ps) = tagged kind [(field, write a)] :: writeAll ps)
    {ps : List (TemplatePart α)}
    (h : ∀ a ∈ ps.filterMap TemplatePart.embedded?, Restores read write n a)
    (hn : heightItems (writeAll ps) ≤ n + 1) :
    (writeAll ps).mapM (readTemplatePart kind field read) = some ps := by
  induction ps with
  | nil => rw [nil]; rfl
  | cons p ps ih =>
    cases p with
    | text x =>
      rw [text, heightItems, Nat.max_le] at hn
      simp [text, readTemplatePart, ih h hn.2]
    | embedded a =>
      simp only [embedded, tagged, ofKind, heightItems, Json.height, Json.heightFields, Nat.max_le,
        Nat.add_le_add_iff_right] at hn
      have ha := h a (.head _) hn.1.2.1
      simp [embedded, readTemplatePart, hkind.symm, hfield, ha, ih (fun a ha => h a (.tail _ ha)) hn.2]

/-! ### Written types -/

namespace TypeExpr

variable {read : Json → Option TypeExpr} {n : Nat}

theorem height_toJson_pos (t : TypeExpr) : 0 < t.toJson.height := by
  cases t <;> simp [toJson, tagged]

theorem read_types {l : List TypeExpr} (h : ∀ t ∈ l, Restores read toJson n t)
    (hn : heightItems (typesJson l) ≤ n) : (typesJson l).mapM read = some l := by
  induction l with
  | nil => rfl
  | cons t ts ih => simp_all [typesJson, Restores]

theorem read_typeOption {o : Option TypeExpr} (h : ∀ t ∈ o.toList, Restores read toJson n t)
    (hn : (typeOptionJson o).height ≤ n) : nullable? read (typeOptionJson o) = some o := by
  cases o with
  | none => rfl
  | some t =>
    have hnull : nullable? read t.toJson = (read t.toJson).map some := by cases t <;> rfl
    simp_all [typeOptionJson, Restores]

theorem read_properties {ps : List (PropertyDecl TypeExpr)}
    (h : ∀ t ∈ ps.map (·.type), Restores read toJson n t)
    (hn : heightItems (propertiesJson ps) ≤ n + 1) :
    (propertiesJson ps).mapM (readProperty read) = some ps := by
  induction ps with
  | nil => rfl
  | cons p ps ih => simp_all [propertiesJson, Restores, readProperty]

theorem read_elements {es : List (TupleElementDecl TypeExpr)}
    (h : ∀ t ∈ es.map (·.type), Restores read toJson n t)
    (hn : heightItems (elementsJson es) ≤ n + 1) :
    (elementsJson es).mapM (readElement read) = some es := by
  induction es with
  | nil => rfl
  | cons e es ih => simp_all [elementsJson, Restores, readElement]

theorem read_typeParams {ps : TypeParams} (h : ∀ t ∈ ps.flatMap (·.types), Restores read toJson n t)
    (hn : heightItems (typeParamsJson ps) ≤ n + 1) :
    (typeParamsJson ps).mapM (readTypeParam read) = some ps := by
  induction ps with
  | nil => rfl
  | cons p ps ih =>
    simp only [flatMap_cons, forall_mem_append, TypeParamDecl.types] at h
    simp only [typeParamsJson, heightItems, Json.height, Json.heightFields, Nat.max_le,
      Nat.add_le_add_iff_right] at hn
    simp [typeParamsJson, readTypeParam, read_typeOption h.1.1 (by omega),
      read_typeOption h.1.2 (by omega), ih h.2 (by omega)]

theorem read_param {p : Param} (h : ∀ t ∈ p.type.toList, Restores read toJson n t)
    (hs : p.span.InRange) (hn : (paramJson p).height ≤ n + 1) :
    readParam read (paramJson p) = some p := by
  obtain ⟨name, type, optional, span⟩ := p
  dsimp only at h hs
  simp only [paramJson, Json.height, Json.heightFields, Nat.max_le, Nat.add_le_add_iff_right] at hn
  simp [paramJson, readParam, read_typeOption h (by omega), Span.ofJson?_toJson hs]

theorem read_params {l : List Param} (h : ∀ t ∈ l.flatMap (·.type.toList), Restores read toJson n t)
    (hs : ∀ s ∈ l.map (·.span), s.InRange) (hn : heightItems (paramsJson l) ≤ n + 1) :
    (paramsJson l).mapM (readParam read) = some l := by
  induction l with
  | nil => rfl
  | cons p ps ih =>
    rw [paramsJson, heightItems, Nat.max_le] at hn
    rw [flatMap_cons, forall_mem_append] at h
    rw [map_cons, forall_mem_cons] at hs
    simp [paramsJson, read_param h.1 hs.1 hn.1, ih h.2 hs.2 hn.2]

theorem read_rest {o : Option Param}
    (h : ∀ t ∈ o.toList.flatMap (·.type.toList), Restores read toJson n t)
    (hs : ∀ s ∈ o.toList.map (·.span), s.InRange) (hn : (paramOptionJson o).height ≤ n + 1) :
    nullable? (readParam read) (paramOptionJson o) = some o := by
  cases o with
  | none => rfl
  | some p =>
    have hnull : nullable? (readParam read) (paramJson p) =
        (readParam read (paramJson p)).map some := by cases p; rfl
    simp [paramOptionJson, hnull, read_param (p := p) (by simpa using h) (by simpa using hs) hn]

theorem read_predicate {o : Option (PredicateDecl TypeExpr)}
    (h : ∀ t ∈ (o.map (·.type)).toList, Restores read toJson n t)
    (hn : (predicateJson o).height ≤ n + 1) :
    nullable? (readPredicate read) (predicateJson o) = some o := by
  cases o with
  | none => rfl
  | some p => simp_all [predicateJson, nullable?, readPredicate, Restores]

/-- **A written type is read back one level above its types.** -/
theorem readStep_toJson {t : TypeExpr} (types : ∀ s ∈ t.written.types, Restores read toJson n s)
    (spans : ∀ s ∈ t.written.spans, s.InRange) (hn : t.toJson.height ≤ n + 1) :
    readStep read t.toJson = some t := by
  cases t <;> simp only [toJson, tagged, ofKind, Json.height, Json.heightFields, Nat.max_le,
    Nat.add_le_add_iff_right] at hn <;>
    refine (Json.bind_tag rfl).trans ?_
  case named name args => simp [toJson, read_types (l := args) types (by omega)]
  case union ms => simp [toJson, read_types (l := ms) types (by omega)]
  case intersection ms => simp [toJson, read_types (l := ms) types (by omega)]
  case template parts => simp [toJson, read_template templateTypeJson (by decide) (by decide) rfl
    (fun _ _ => rfl) (fun _ _ => rfl) types (by omega)]
  case object ps index =>
    simp only [written, forall_mem_append] at types
    simp [toJson, read_properties types.1 (by omega),
      read_typeOption types.2 (by omega)]
  case tuple es rest =>
    simp only [written, forall_mem_append] at types
    simp [toJson, read_elements types.1 (by omega),
      read_typeOption types.2 (by omega)]
  case function f =>
    obtain ⟨typeParams, params, rest, result, predicate, construct⟩ := f
    simp only [functionTypeFields, Json.height, Json.heightFields, Nat.max_le] at hn
    simp only [written, Written.ofHead, forall_mem_append, flatMap_append,
      map_append, forall_mem_cons] at types spans
    obtain ⟨⟨htypeParams, hparams, hrest⟩, hresult, hpredicate⟩ := types
    simp [toJson, readFunction, functionTypeFields,
      read_typeParams htypeParams (by omega), read_params hparams spans.1 (by omega),
      read_rest hrest spans.2 (by omega), hresult (by omega), read_predicate hpredicate (by omega)]
  all_goals simp_all [toJson, written, Restores]

theorem InRange.restores {t : TypeExpr} (h : t.InRange) (n : Nat) :
    Restores (readWithin n) toJson n t := by
  induction h generalizing n with
  | @mk t _ spans ih =>
    intro hn
    cases n with
    | zero => exact absurd hn (Nat.not_le_of_lt t.height_toJson_pos)
    | succ n => exact readStep_toJson (fun s hs => ih s hs n) spans hn

theorem ofJson?_toJson {t : TypeExpr} (h : t.InRange) : ofJson? t.toJson = some t := by
  have hkind : ∃ kind, t.toJson.required? "kind" toString? = some kind := by
    cases t <;> exact ⟨_, rfl⟩
  obtain ⟨kind, hkind⟩ := hkind
  rw [ofJson?, hkind]
  exact h.restores _ (Nat.le_refl _)

end TypeExpr

/-! ### Expressions and statements -/

/-- The readers give back what the parts of an expression or a statement are written as. -/
structure ProgramReader.Restores (r : ProgramReader) (n : Nat) (written : Written)
    (parts : List Expr) (blocks : List (List Stmt)) : Prop where
  types : ∀ t ∈ written.types, Json.Restores r.type TypeExpr.toJson n t
  spans : ∀ s ∈ written.spans, s.InRange
  parts : ∀ e ∈ parts, Json.Restores r.expr Expr.toJson n e
  blocks : ∀ block ∈ blocks, ∀ s ∈ block, Json.Restores r.stmt Stmt.toJson n s

namespace ProgramReader

variable {r : ProgramReader} {n : Nat}

theorem read_exprs {l : List Expr} (h : ∀ e ∈ l, Json.Restores r.expr Expr.toJson n e)
    (hn : heightItems (exprsJson l) ≤ n) : (exprsJson l).mapM r.expr = some l := by
  induction l with
  | nil => rfl
  | cons e es ih => simp_all [exprsJson, Json.Restores]

theorem read_stmts {ss : List Stmt} (h : ∀ s ∈ ss, Json.Restores r.stmt Stmt.toJson n s)
    (hn : heightItems (stmtsJson ss) ≤ n) : (stmtsJson ss).mapM r.stmt = some ss := by
  induction ss with
  | nil => rfl
  | cons s ss ih => simp_all [stmtsJson, Json.Restores]

theorem read_exprOption {o : Option Expr} (h : ∀ e ∈ o.toList, Json.Restores r.expr Expr.toJson n e)
    (hn : (exprOptionJson o).height ≤ n) : nullable? r.expr (exprOptionJson o) = some o := by
  cases o with
  | none => rfl
  | some e =>
    have hnull : nullable? r.expr e.toJson = (r.expr e.toJson).map some := by cases e; rfl
    simp_all [exprOptionJson, Json.Restores]

theorem read_block {o : Option (List Stmt)}
    (h : ∀ block ∈ o.toList, ∀ s ∈ block, Json.Restores r.stmt Stmt.toJson n s)
    (hn : (blockJson o).height ≤ n + 1) : nullable? r.block? (blockJson o) = some o := by
  cases o with
  | none => rfl
  | some ss =>
    simp [blockJson, nullable?, block?, read_stmts (h ss (.head _)) (Nat.le_of_succ_le_succ hn)]

theorem read_members {ms : List (ObjectMember Expr)}
    (h : ∀ e ∈ ms.map ObjectMember.value, Json.Restores r.expr Expr.toJson n e)
    (hn : heightItems (membersJson ms) ≤ n + 1) :
    (membersJson ms).mapM r.objectMember? = some ms := by
  induction ms with
  | nil => rfl
  | cons m ms ih =>
    cases m <;>
      simp_all [membersJson, objectMember?, Json.Restores, ObjectMember.value]

theorem read_cases {cs : List Case} (hs : ∀ s ∈ cs.map (·.span), s.InRange)
    (h : ∀ e ∈ cs.filterMap (·.test), Json.Restores r.expr Expr.toJson n e)
    (hb : ∀ block ∈ cs.map (·.body), ∀ s ∈ block, Json.Restores r.stmt Stmt.toJson n s)
    (hn : heightItems (casesJson cs) ≤ n + 1) : (casesJson cs).mapM r.case? = some cs := by
  induction cs with
  | nil => rfl
  | cons c cs ih =>
    simp only [casesJson, heightItems, Json.height, Json.heightFields, Nat.max_le,
      Nat.add_le_add_iff_right] at hn
    simp only [map_cons, forall_mem_cons] at hs hb
    rw [← singleton_append, filterMap_append, forall_mem_append] at h
    have htest := read_exprOption (o := c.test) (by simpa using h.1) (by omega)
    simp [casesJson, case?, block?, htest, read_stmts hb.1 (by omega), Span.ofJson?_toJson hs.1,
      ih hs.2 h.2 hb.2 (by omega)]

theorem read_fields {fs : List (ClassField Expr)}
    (ht : ∀ t ∈ fs.map (·.type), Json.Restores r.type TypeExpr.toJson n t)
    (h : ∀ e ∈ fs.filterMap (·.init), Json.Restores r.expr Expr.toJson n e)
    (hn : heightItems (fieldsJson fs) ≤ n + 1) : (fieldsJson fs).mapM r.classField? = some fs := by
  induction fs with
  | nil => rfl
  | cons f fs ih =>
    simp only [fieldsJson, heightItems, Json.height, Json.heightFields, Nat.max_le,
      Nat.add_le_add_iff_right] at hn
    simp only [map_cons, forall_mem_cons] at ht
    rw [← singleton_append, filterMap_append, forall_mem_append] at h
    have hinit := read_exprOption (o := f.init) (by simpa using h.1) (by omega)
    simp [fieldsJson, classField?, hinit, ht.1 (by omega), ih ht.2 h.2 (by omega)]

/-- A function is read from an object that has its fields, among others. -/
theorem read_function {f : FunctionDecl Stmt} {j : Json} (h : r.Restores n f.written [] f.body.toList)
    (hn : Json.heightFields (functionFields f) ≤ n) (hj : ∀ name, name ≠ "kind" → name ≠ "span" →
      j.get? name = (Json.object (functionFields f)).get? name) : r.function? j = some f := by
  obtain ⟨name, typeParams, params, rest, result, predicate, isAsync, body⟩ := f
  obtain ⟨types, spans, -, blocks⟩ := h
  simp only [functionFields, Json.height, Json.heightFields, Nat.max_le] at hn
  simp only [FunctionDecl.written, Written.ofHead, forall_mem_append, flatMap_append,
    map_append] at types spans
  obtain ⟨⟨htypeParams, hparams, hrest⟩, hresult, hpredicate⟩ := types
  simp [function?, typeParams?, params?, hj, functionFields,
    TypeExpr.read_typeParams htypeParams (by omega), TypeExpr.read_params hparams spans.1 (by omega),
    TypeExpr.read_rest hrest spans.2 (by omega), TypeExpr.read_typeOption hresult (by omega),
    TypeExpr.read_predicate hpredicate (by omega), read_block (o := body) blocks (by omega)]

theorem read_functions {fs : List (FunctionDecl Stmt)}
    (h : ∀ f ∈ fs, r.Restores n f.written [] f.body.toList)
    (hn : heightItems (functionsJson fs) ≤ n + 1) :
    (functionsJson fs).mapM r.function? = some fs := by
  induction fs with
  | nil => rfl
  | cons f fs ih =>
    rw [functionsJson, heightItems, Json.height, Nat.max_le, Nat.add_le_add_iff_right] at hn
    simp [functionsJson, read_function (h f (.head _)) hn.1 fun _ _ _ => rfl,
      ih (fun f hf => h f (.tail _ hf)) hn.2]

/-- **The kind of an expression is read back one level above its parts.** -/
theorem exprKind?_fields {kind : ExprKind} (id span : Json)
    (h : r.Restores n kind.written kind.parts kind.blocks) (hn : Json.heightFields kind.fields ≤ n) :
    r.exprKind? (.object (("id", id) :: (kind.fields ++ [("span", span)]))) = some kind := by
  obtain ⟨types, spans, parts, blocks⟩ := h
  cases kind <;> simp only [ExprKind.fields, ofKind, Json.heightFields, Json.height, Nat.max_le] at hn <;>
    refine (Json.bind_tag rfl).trans ?_
  case template ps => simp [ExprKind.fields, read_template templateJson (by decide) (by decide) rfl
    (fun _ _ => rfl) (fun _ _ => rfl) parts (by omega)]
  case object ms => simp [ExprKind.fields, read_members parts (by omega)]
  case array es => simp [ExprKind.fields, read_exprs (l := es) parts (by omega)]
  case call callee ts es =>
    simp only [ExprKind.parts, forall_mem_cons] at parts
    simp [ExprKind.fields, TypeExpr.read_types (l := ts) types (by omega),
      parts.1 (by omega), read_exprs parts.2 (by omega)]
  case new callee ts es =>
    simp only [ExprKind.parts, forall_mem_cons] at parts
    simp [ExprKind.fields, TypeExpr.read_types (l := ts) types (by omega),
      parts.1 (by omega), read_exprs parts.2 (by omega)]
  case function f =>
    obtain ⟨typeParams, params, result, isAsync, body⟩ := f
    simp only [ExprKind.written, Written.ofHead, forall_mem_append] at types spans
    dsimp only at hn
    have hbody : r.functionBody? (bodyJson body) = some body := by
      cases body with
      | expr e =>
        simp only [bodyJson, tagged, ofKind, Json.height, Json.heightFields] at hn
        simp [bodyJson, functionBody?, parts e (.head _) (by omega)]
      | block ss =>
        simp only [bodyJson, tagged, ofKind, Json.height, Json.heightFields] at hn
        simp [bodyJson, functionBody?, block?, read_stmts (blocks ss (.head _)) (by omega)]
    simp [ExprKind.fields, functionExpr?, typeParams?, params?, hbody,
      TypeExpr.read_typeParams types.1.1 (by omega),
      TypeExpr.read_params types.1.2 spans (by omega), TypeExpr.read_typeOption types.2 (by omega)]
  all_goals simp_all [ExprKind.fields, ExprKind.written, ExprKind.parts, Json.Restores]

/-- **The kind of a statement is read back one level above its parts.** -/
theorem stmtKind?_fields {kind : StmtKind} (span : Json)
    (h : r.Restores n kind.written kind.parts kind.blocks) (hn : Json.heightFields kind.fields ≤ n) :
    r.stmtKind? (.object (kind.fields ++ [("span", span)])) = some kind := by
  obtain ⟨types, spans, parts, blocks⟩ := id h
  cases kind <;> simp only [StmtKind.fields, ofKind, Json.heightFields, Json.height, Nat.max_le] at hn <;>
    refine (Json.bind_tag rfl).trans ?_
  case typeAlias name ps body =>
    simp only [StmtKind.written, Written.ofHead, forall_mem_append] at types
    simp [StmtKind.fields, typeParams?, TypeExpr.read_typeParams types.1.1 (by omega),
      types.2 _ (.head _) (by omega)]
  case interface name ps extended members =>
    simp only [StmtKind.written, Written.ofHead, forall_mem_append] at types
    simp [StmtKind.fields, typeParams?, TypeExpr.read_typeParams types.1.1 (by omega),
      TypeExpr.read_types types.2.1 (by omega), TypeExpr.read_properties types.2.2 (by omega)]
  case class_ c =>
    obtain ⟨name, typeParams, fields, constructor, methods⟩ := c
    simp only [StmtKind.written, StmtKind.blocks, Written.ofHead, forall_mem_append]
      at types spans blocks
    dsimp only at hn
    have hconstructor : nullable? r.constructor? (constructorJson constructor) =
        some constructor := by
      cases constructor with
      | none => rfl
      | some c =>
        simp only [constructorJson, Json.height, Json.heightFields] at hn
        have hparams := TypeExpr.read_params (l := c.params) (by simpa using types.1.1.2)
          (by simpa using spans.1) (by omega)
        simp [constructorJson, nullable?, constructor?, params?, block?, hparams,
          read_stmts (blocks.1 c.body (.head _)) (by omega)]
    have hmethods : ∀ f ∈ methods, r.Restores n f.written [] f.body.toList := fun f hf =>
      { types := fun t ht => types.2 t (mem_flatMap.2 ⟨f, hf, ht⟩)
        spans := fun s hs => spans.2 s (mem_flatMap.2 ⟨f, hf, hs⟩)
        parts := nofun
        blocks := fun b hb => blocks.2 b (mem_filterMap.2 ⟨f, hf, by simpa using hb⟩) }
    simp [StmtKind.fields, class?, typeParams?, hconstructor,
      TypeExpr.read_typeParams types.1.1.1 (by omega), read_fields types.1.2 parts (by omega),
      read_functions hmethods (by omega)]
  case function f =>
    have hf := read_function (j := .object ((StmtKind.function f).fields ++ [("span", span)])) h hn.2
      fun name hkind hspan => by
        cases f
        simp [StmtKind.fields, functionFields, Ne.symm hkind, Ne.symm hspan]
    simp only [StmtKind.fields, ofKind, cons_append] at hf
    simp [StmtKind.fields, hf]
  case var kind name type init =>
    simp [StmtKind.fields, TypeExpr.read_typeOption types (by omega),
      read_exprOption parts (by omega)]
  case return_ value => simp [StmtKind.fields, read_exprOption parts (by omega)]
  case if_ cond yes no =>
    simp only [StmtKind.blocks, forall_mem_cons] at blocks
    simp [StmtKind.fields, block?, parts cond (.head _) (by omega),
      read_stmts blocks.1 (by omega), read_block blocks.2 (by omega)]
  case switch subject cs =>
    simp only [StmtKind.parts, forall_mem_cons] at parts
    simp [StmtKind.fields, parts.1 (by omega), read_cases spans parts.2 blocks (by omega)]
  case while_ cond body =>
    simp [StmtKind.fields, block?, parts cond (.head _) (by omega),
      read_stmts (blocks body (.head _)) (by omega)]
  case block body =>
    simp [StmtKind.fields, block?, read_stmts (blocks body (.head _)) (by omega)]
  all_goals simp_all [StmtKind.fields, StmtKind.parts, Json.Restores]

theorem within_type (n : Nat) : (within n).type = TypeExpr.readWithin n := by
  cases n <;> rfl

theorem within_restores {written : Written} {parts : List Expr} {blocks : List (List Stmt)}
    (h : written.InRange) (hparts : ∀ e ∈ parts, Json.Restores (within n).expr Expr.toJson n e)
    (hblocks : ∀ block ∈ blocks, ∀ s ∈ block, Json.Restores (within n).stmt Stmt.toJson n s) :
    (within n).Restores n written parts blocks where
  types t ht := within_type n ▸ (h.types t ht).restores n
  spans := h.spans
  parts := hparts
  blocks := hblocks

end ProgramReader

mutual
theorem Expr.InRange.restores {e : Expr} (h : e.InRange) (n : Nat) :
    Json.Restores (ProgramReader.within n).expr Expr.toJson n e := by
  obtain @⟨id, kind, span, number, place, written, parts, blocks⟩ := h
  intro hn
  cases n with
  | zero => simp [Expr.toJson] at hn
  | succ n =>
    have hr := ProgramReader.within_restores written (fun e he => (parts e he).restores n)
      fun block hb s hs => (blocks block hb s hs).restores n
    simp only [Expr.toJson, Json.height, heightFields_append, Nat.max_le,
      Nat.add_le_add_iff_right] at hn
    have hkind := ProgramReader.exprKind?_fields (.ofNat id) span.toJson hr hn.1.2
    have hspan : (Json.object (kind.fields ++ [("span", span.toJson)])).get? "span" =
        some span.toJson := by cases kind <;> simp [ExprKind.fields]
    simp -implicitDefEqProofs [ProgramReader.within, ProgramReader.readExpr, Expr.toJson, hkind,
      hspan, toUInt32?_ofNat number, Span.ofJson?_toJson place]

theorem Stmt.InRange.restores {s : Stmt} (h : s.InRange) (n : Nat) :
    Json.Restores (ProgramReader.within n).stmt Stmt.toJson n s := by
  obtain @⟨kind, span, place, written, parts, blocks⟩ := h
  intro hn
  cases n with
  | zero => simp [Stmt.toJson] at hn
  | succ n =>
    have hr := ProgramReader.within_restores written (fun e he => (parts e he).restores n)
      fun block hb s hs => (blocks block hb s hs).restores n
    simp only [Stmt.toJson, Json.height, heightFields_append, Nat.max_le,
      Nat.add_le_add_iff_right] at hn
    have hkind := ProgramReader.stmtKind?_fields span.toJson hr hn.1
    have hspan : (Json.object (kind.fields ++ [("span", span.toJson)])).get? "span" =
        some span.toJson := by
      cases kind with
      | function f => cases f; simp [StmtKind.fields, functionFields]
      | _ => simp [StmtKind.fields]
    simp [ProgramReader.within, ProgramReader.readStmt, Stmt.toJson, hkind, hspan,
      Span.ofJson?_toJson place]
end

theorem CodeUnit.ofJson?_toJson {u : CodeUnit} (h : u.InRange) : ofJson? u.toJson = some u := by
  have hstatements : ∀ ss : List Stmt, (∀ s ∈ ss, s.InRange) →
      (stmtsJson ss).mapM Stmt.ofJson? = some ss := by
    intro ss hss
    induction ss with
    | nil => rfl
    | cons s ss ih =>
      have hs : Stmt.ofJson? s.toJson = some s := (hss s (.head _)).restores _ (Nat.le_refl _)
      simp [stmtsJson, hs, ih fun s hs => hss s (.tail _ hs)]
  simp [ofJson?, toJson, hstatements u.statements h]

theorem Diagnostic.ofJson?_toJson {d : Diagnostic} (h : d.span.InRange) :
    ofJson? d.toJson = some d := by
  have hnotes : ∀ notes : List String, (notes.map Json.string).mapM toString? = some notes := by
    intro notes
    induction notes with
    | nil => rfl
    | cons note notes ih => simp [ih]
  obtain ⟨kind, code, message, span, label, notes⟩ := d
  cases notes with
  | nil => simp -implicitDefEqProofs [ofJson?, toJson, Span.ofJson?_toJson h, get?]
  | cons note notes =>
    have hcons := hnotes (note :: notes)
    rw [map_cons] at hcons
    simp -implicitDefEqProofs [ofJson?, toJson, Span.ofJson?_toJson h, hcons]

/-- **Reading undoes writing**, for units, statements, expressions, written types and
diagnostics whose numbers fit their widths. -/
theorem read_written :
    (∀ u : CodeUnit, u.InRange → CodeUnit.ofJson? u.toJson = some u) ∧
    (∀ s : Stmt, s.InRange → Stmt.ofJson? s.toJson = some s) ∧
    (∀ e : Expr, e.InRange → Expr.ofJson? e.toJson = some e) ∧
    (∀ t : TypeExpr, t.InRange → TypeExpr.ofJson? t.toJson = some t) ∧
    ∀ d : Diagnostic, d.span.InRange → Diagnostic.ofJson? d.toJson = some d :=
  ⟨fun _ h => CodeUnit.ofJson?_toJson h, fun _ h => h.restores _ (Nat.le_refl _),
    fun _ h => h.restores _ (Nat.le_refl _), fun _ h => TypeExpr.ofJson?_toJson h,
    fun _ h => Diagnostic.ofJson?_toJson h⟩

/-- A loop around a declaration with a type, as a unit. -/
theorem read_written_loop :
    let span : Span := ⟨4, 20, 1, 5⟩
    let value : Expr := .mk 7 (.array [.mk 8 (.string "a") span]) span
    let inner : Stmt := .mk (.var .const "x" (some (.array (.ofName "string"))) (some value)) span
    let unit : CodeUnit := ⟨"a", "", [.mk (.while_ (.mk 6 (.bool true) span) [inner]) span]⟩
    unit.InRange ∧ CodeUnit.ofJson? unit.toJson = some unit := by
  intro span value inner unit
  have place : span.InRange := ⟨by decide, by decide, by decide, by decide⟩
  have text : (Expr.mk 8 (.string "a") span).InRange := .mk (by decide) place ⟨nofun, nofun⟩ nofun nofun
  have hvalue : value.InRange := .mk (by decide) place ⟨nofun, nofun⟩ (by simpa [ExprKind.parts]) nofun
  have name : (TypeExpr.ofName "string").InRange := .mk nofun nofun
  have type : (TypeExpr.array (.ofName "string")).InRange := .mk (by simpa [TypeExpr.written]) nofun
  have hinner : inner.InRange := .mk place ⟨by simpa [StmtKind.written], nofun⟩
    (by simpa [StmtKind.parts]) nofun
  have cond : (Expr.mk 6 (.bool true) span).InRange := .mk (by decide) place ⟨nofun, nofun⟩ nofun nofun
  have range : unit.InRange := by
    have : (Stmt.mk (.while_ (.mk 6 (.bool true) span) [inner]) span).InRange :=
      .mk place ⟨nofun, nofun⟩ (by simpa [StmtKind.parts]) (by simpa [StmtKind.blocks])
    simpa [CodeUnit.InRange, unit]
  exact ⟨range, read_written.1 unit range⟩

end GradualTyping
