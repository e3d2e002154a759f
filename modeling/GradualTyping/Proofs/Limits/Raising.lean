/-
# Answers under a larger limit of depth

Two runs of one script from fresh tables whose limits of depth differ.  As long as the
guard does not trip under the smaller limit, and no type is nested deeper than it, the
runs give the same answers (`same_answers_under_larger_limit`).  That the guard does not
trip is not enough: the walks that stop silently at the limit take two shapes for
different, and a union keeps both of them (`shapes_apart_at_limit`).

The two runs keep step (`Lockstep.raising`): at each time the second table is the first
with the larger limit.  At the smaller limit the first guard trips, and then nothing is
asked of the second run.  In the same way a run keeps step with one that starts less deep
(`Lockstep.shifting`).
-/

import Mathlib
import GradualTyping.Proofs.Sound.Layers
import GradualTyping.Proofs.Limits.Nesting
import GradualTyping.Proofs.Lockstep.Narrowing
import GradualTyping.Proofs.Balance

namespace GradualTyping

open TypeTable List Reduction

variable {fuel : Nat} {t : TypeTable}

namespace TypeTable

/-- The guard has not tripped and no type is deeper than the limit. -/
structure WithinLimit (t : TypeTable) : Prop where
  untripped : t.Untripped
  shallow : t.Shallow t.limits.maxDepth

instance (t : TypeTable) : Decidable t.WithinLimit :=
  decidable_of_iff (t.depthError.isNone ∧ t.Shallow t.limits.maxDepth)
    ⟨fun h => ⟨Option.isNone_iff_eq_none.1 h.1, h.2⟩,
      fun h => ⟨Option.isNone_iff_eq_none.2 h.untripped, h.shallow⟩⟩

variable {t t' : TypeTable}

/-- The guard has not tripped, and the walks over types see the same under another limit. -/
structure Clear (m : Nat) (t : TypeTable) : Prop where
  untripped : t.Untripped
  same : m = t.limits.maxDepth ∨ t.limits.maxDepth ≤ m ∧ t.Shallow t.limits.maxDepth

theorem Clear.earlier {m : Nat} (h : t'.Clear m) (l : t.Later t') : t.Clear m :=
  ⟨l.untripped h.untripped, l.limits ▸ h.same.imp_right fun h => ⟨h.1, h.2.earlier l⟩⟩

theorem Clear.sameUnder {p : Place} (h : t.Clear p.limit) : t.SameUnder p :=
  h.same.elim sameUnder_of_eq fun h => h.2.sameUnder h.1

/-- A table that differs in what is under way or remembered. -/
theorem later_of_eq (t t' : TypeTable) (types : t'.types = t.types) (limits : t'.limits = t.limits)
    (aliases : t'.aliases = t.aliases) (untripped : t'.Untripped → t.Untripped) : t.Later t' :=
  ⟨⟨types ▸ prefix_refl _, limits⟩, aliases, untripped⟩

theorem insert_under (t : TypeTable) (p : Place) (ty : Ty) :
    (t.under p).insert ty = ((t.insert ty).1, (t.insert ty).2.under p) := by
  cases h : t.lookup? ty with
  | some id => rw [insert_of_lookup h, insert_of_lookup (t := t.under p) h]
  | none =>
    rw [insert_of_new h, insert_of_new (t := t.under p) h]
    rfl

theorem insert_withDepth (t : TypeTable) (m : Nat) (ty : Ty) :
    (t.withDepth m).insert ty = ((t.insert ty).1, (t.insert ty).2.withDepth m) := by
  refine (insert_under t ⟨m, t.depth⟩ ty).trans (Prod.ext rfl ?_)
  rw [under, ← (runs_insert t ty).depth]
  rfl

end TypeTable

/-! ### Keeping step -/

namespace Lockstep

/-- Two runs, the second less deep or under a larger limit.  They agree when the first does not
trip the guard and stays within its limit. -/
def shifting (limit depth : Nat) (p : Place) : Lockstep where
  Rel c c' := ∀ t, t.depth = depth → t.limits.maxDepth = limit →
    t.Later (c t).2 ∧ (c t).2.depth = t.depth ∧
      ((c t).2.Clear p.limit → c' (t.under p) = ((c t).1, (c t).2.under p))
  pure _ t _ _ := ⟨.refl t, rfl, fun _ => rfl⟩
  bind {_ _ c c' f f'} hc hf t hd hl := by
    obtain ⟨l1, d1, e1⟩ := hc t hd hl
    obtain ⟨l2, d2, e2⟩ := hf (c t).1 (c t).2 (d1.trans hd)
      ((congrArg Limits.maxDepth l1.limits).trans hl)
    refine ⟨l1.trans l2, d2.trans d1, fun h => ?_⟩
    show f' (c' (t.under p)).1 (c' (t.under p)).2 = _
    rw [e1 (h.earlier l2)]
    exact e2 h
  look {_ _} g {f f'} blind h := by
    intro t hd hl
    obtain ⟨l, d, e⟩ := h (g t) t hd hl
    refine ⟨l, d, fun within => ?_⟩
    have same : t.SameUnder p := (within.earlier l).sameUnder
    show f' (g (t.under p)) (t.under p) = _
    rw [show f' (g (t.under p)) = f' (g t) from blind t p same]
    exact e within
  intern ty t _ _ :=
    ⟨later_insert, (runs_insert t ty).depth, fun _ => insert_under t p ty⟩
  freshVariable t _ _ := by
    let next : TypeTable := { t with nextVariable := t.nextVariable + 1 }
    exact ⟨(later_of_eq t next rfl rfl rfl id).trans later_insert, (runs_insert next _).depth,
      fun _ => insert_under next p _⟩
  whileExpanding {_} name {c c'} hc t hd hl := by
    obtain ⟨l, d, e⟩ := hc (t.expandingOne name) hd hl
    have expanded (t : TypeTable) : t.Later t.expandedOne := later_of_eq t _ rfl rfl rfl id
    have started := later_of_eq t (t.expandingOne name) rfl rfl rfl id
    refine ⟨started.trans (l.trans (expanded _)), d, fun h => ?_⟩
    show ((c' ((t.expandingOne name).under p)).1,
      (c' ((t.expandingOne name).under p)).2.expandedOne) = _
    rw [e (h.earlier (expanded _))]
    rfl

/-- Two runs at one depth, the second under a larger limit. -/
abbrev raising (limit m depth : Nat) : Lockstep := shifting limit depth ⟨m, depth⟩

section Guard

variable {limit depth : Nat} {p : Place}

theorem bracket_shifting (hlt : depth < limit) (hp : p.depth < p.limit) :
    Bracket (shifting limit depth p) (shifting limit (depth + 1) ⟨p.limit, p.depth + 1⟩) := by
  refine ⟨fun {α} tripped {c c'} h t hd hl => ?_⟩
  rw [guarded_eq, guarded_eq]
  rcases untripped_or with hu | hu
  · rw [enter_of_tripped hu]
    exact ⟨.refl t, rfl, fun within => absurd hu within.untripped.not_isSome⟩
  · rw [enter_of_lt hu (by omega), enter_of_lt (t := t.under p) hu hp]
    obtain ⟨l, d, e⟩ := h t.deeper (congrArg (· + 1) hd) hl
    have out (t : TypeTable) : t.Later t.shallower := later_of_eq t _ rfl rfl rfl id
    refine ⟨(later_of_eq t t.deeper rfl rfl rfl id).trans (l.trans (out _)), ?_, fun within => ?_⟩
    · show (c t.deeper).2.depth - 1 = t.depth
      rw [d]
      rfl
    · show ((c' (t.deeper.under ⟨_, p.depth + 1⟩)).1,
        (c' (t.deeper.under ⟨_, p.depth + 1⟩)).2.shallower) = _
      rw [e (within.earlier (out _))]
      rfl

/-- At the smaller limit the guard of the first run trips. -/
theorem bracket_limit (hge : limit ≤ depth) :
    Bracket (shifting limit depth p) Course.never.lockstep := by
  refine ⟨fun {α} tripped {c c'} _ t hd hl => ?_⟩
  rw [guarded_eq]
  rcases untripped_or with hu | hu
  · rw [enter_of_tripped hu]
    exact ⟨.refl t, rfl, fun within => absurd hu within.untripped.not_isSome⟩
  · rw [enter_of_limit hu (by omega)]
    exact ⟨later_of_eq t t.trip rfl rfl rfl fun _ => hu, rfl,
      fun within => absurd rfl within.untripped.not_isSome⟩

theorem shifting_remembering (id : TypeId) {c c' : TableM TypeId}
    (h : (shifting limit depth p).Rel c c') :
    (shifting limit depth p).Rel (remembering id c) (remembering id c') := by
  intro t hd hl
  obtain ⟨l, d, e⟩ := h (t.opening id) hd hl
  have opened := (later_of_eq t (t.opening id) rfl rfl rfl fun h => h).trans l
  rw [remembering_eq, remembering_eq,
    show (t.under p).opening id = (t.opening id).under p from rfl]
  split
  · next ht =>
    exact ⟨opened.trans (later_of_eq _ _ rfl rfl rfl fun h => h), d,
      fun within => absurd ht within.untripped.not_isSome⟩
  · next ht =>
    have out (t : TypeTable) (result : TypeId) : t.Later (t.closing.storing id result) :=
      later_of_eq t _ rfl rfl rfl fun h => h
    refine ⟨opened.trans (out _ _), d, fun within => ?_⟩
    rw [e (within.earlier (out _ _))]
    exact if_neg ht

/-- **The guarded operations of the two runs keep step.** -/
theorem joined_shifting (n : Nat) (levels : limit - depth = n) (hp : n ≤ p.limit - p.depth) :
    (shifting limit depth p).Joined (.withLevels n) (.withLevels (p.limit - p.depth)) := by
  induction n generalizing depth p with
  | zero =>
    obtain ⟨deeper, hdeeper⟩ : ∃ deeper, Operations.withLevels (p.limit - p.depth) =
        .above fun _ => deeper := by
      cases p.limit - p.depth with
      | zero => exact ⟨_, rfl⟩
      | succ k => exact ⟨_, rfl⟩
    rw [hdeeper]
    exact (bracket_limit (by omega)).above Course.joined_never fun id => Course.remembering id
  | succ n ih =>
    rw [show p.limit - p.depth = (p.limit - (p.depth + 1)) + 1 by omega]
    exact (bracket_shifting (by omega) (by omega)).above
      (ih (p := ⟨p.limit, p.depth + 1⟩) (by omega) (by dsimp only; omega)) shifting_remembering

theorem joined_raising {m : Nat} (hle : limit ≤ m) :
    (raising limit m depth).Joined (.withLevels (limit - depth)) (.withLevels (m - depth)) :=
  joined_shifting (p := ⟨m, depth⟩) _ rfl (by dsimp only; omega)

theorem asks_raising {m : Nat} (hle : limit ≤ m) : (raising limit m depth).Asks where
  operations {α k k'} hk := by
    intro t hd hl
    subst hd hl
    exact hk (joined_raising hle) t rfl rfl

end Guard

end Lockstep

/-! ### Looking through names -/

/-- Looking through names only adds to the table. -/
theorem later_unfoldWithin (fuel : Nat) (type : TypeId) (t : TypeTable) :
    t.Later (unfoldWithin fuel type t).2 :=
  ((Lockstep.asks_raising (Nat.le_refl _)).unfoldWithin fuel type t rfl rfl).1

theorem later_unfoldAll {types : List TypeId} (t : TypeTable) :
    t.Later (types.mapM (unfoldWithin fuel) t).2 :=
  ((Lockstep.raising _ _ _).self.mapM
    (fun m _ => (Lockstep.asks_raising (Nat.le_refl _)).unfoldWithin fuel m) t rfl rfl).1

/-- The members of a union, the body of a name, or an answer at once. -/
theorem unfoldWithin_cases {type : TypeId} (t : TypeTable) :
    (∃ ms, t.resolve type = .union ms ∧ ∀ fuel, unfoldWithin (fuel + 1) type t =
      (List.flatten <$> ms.mapM (unfoldWithin fuel) : TableM (List TypeId)) t) ∨
    (∃ body, t.namedUnion? type = some body ∧ ∀ fuel, 2 ≤ fuel →
      unfoldWithin (fuel + 1) type t = unfoldWithin fuel body t) ∨
    ∃ result, ∀ fuel, unfoldWithin (fuel + 1) type t = result := by
  have node : GradualTyping.resolve type t = (t.resolve type, t) := rfl
  cases hty : t.resolve type with
  | union ms =>
    refine .inl ⟨ms, rfl, fun fuel => ?_⟩
    rw [unfoldWithin, bind_of_eq node, hty]
    rfl
  | never =>
    refine .inr (.inr ⟨([], t), fun fuel => ?_⟩)
    rw [unfoldWithin, bind_of_eq node, hty]
    rfl
  | _ =>
    cases hb : t.namedUnion? type with
    | some body =>
      refine .inr (.inl ⟨body, rfl, fun fuel hf => ?_⟩)
      rw [unfoldWithin, bind_of_eq node, hty]
      dsimp only
      rw [get_bind, hb]
      exact congrFun (if_neg (Nat.not_lt.2 hf)) t
    | none =>
      refine .inr (.inr ⟨evaluatedMembers type t, fun fuel => ?_⟩)
      rw [unfoldWithin, bind_of_eq node, hty]
      dsimp only
      rw [get_bind, hb]

theorem unfoldAll {n fuel fuel' : Nat} {types : List TypeId} {t : TypeTable}
    (h : ∀ m ∈ types, TypeTable.Ends (types.mapM (unfoldWithin fuel) t).2.opened n m)
    (each : ∀ {m : TypeId} {t : TypeTable}, TypeTable.Ends (unfoldWithin fuel m t).2.opened n m →
      unfoldWithin fuel' m t = unfoldWithin fuel m t) :
    types.mapM (unfoldWithin fuel') t = types.mapM (unfoldWithin fuel) t := by
  induction types generalizing t with
  | nil => rfl
  | cons m types ih =>
    rw [mapM_cons] at h ⊢
    rw [mapM_cons]
    have rest : (unfoldWithin fuel m t).2.Later (types.mapM (unfoldWithin fuel) (unfoldWithin fuel m t).2).2 :=
      later_unfoldAll _
    have head : unfoldWithin fuel' m t = unfoldWithin fuel m t :=
      each ((h m (.head _)).mono rest.opened)
    have tail := ih (t := (unfoldWithin fuel m t).2) fun x hx => h x (.tail _ hx)
    rw [bind_of_eq head]
    exact (bind_of_eq tail).trans rfl

/-- More levels than there are unions and names to open make no difference. -/
theorem unfoldWithin_more {n fuel' : Nat} {type : TypeId}
    (h : TypeTable.Ends (unfoldWithin fuel type t).2.opened n type) (hf : n < fuel) (hf' : n < fuel') :
    unfoldWithin fuel' type t = unfoldWithin fuel type t := by
  induction n generalizing fuel fuel' type t with
  | zero => exact h.elim
  | succ n ih =>
    obtain ⟨fuel, rfl⟩ : ∃ k, fuel = k + 1 := ⟨fuel - 1, by omega⟩
    obtain ⟨fuel', rfl⟩ : ∃ k, fuel' = k + 1 := ⟨fuel' - 1, by omega⟩
    have later := later_unfoldWithin (fuel + 1) type t
    rcases unfoldWithin_cases t with ⟨ms, hms, e⟩ | ⟨body, hbody, e⟩ | ⟨result, e⟩
    · rw [e] at h later ⊢
      rw [e]
      have opened : t.opened type = ms := by rw [opened, hms]
      have members : ∀ m ∈ ms, TypeTable.Ends (ms.mapM (unfoldWithin fuel) t).2.opened n m := fun m hm =>
        h m (later.opened type (opened ▸ hm))
      exact congrArg (Prod.map List.flatten id)
        (unfoldAll members fun h => ih h (by omega) (by omega))
    · have opens : TypeTable.Ends (unfoldWithin (fuel + 1) type t).2.opened n body := by
        refine h body (later.opened type ?_)
        unfold opened
        split
        · rename_i hms
          rw [namedUnion?, hms] at hbody
          cases hbody
        · rw [hbody]
          exact .head _
      have hn : n ≠ 0 := by
        rintro rfl
        exact opens
      rw [e fuel (by omega)] at opens ⊢
      rw [e fuel' (by omega)]
      exact ih opens (by omega) (by omega)
    · rw [e, e]

theorem Lockstep.narrows_raising {limit m : Nat} (hle : limit ≤ m) {depth : Nat} :
    (raising limit m depth).Narrows where
  toAsks := asks_raising hle
  namedMembers type := by
    intro t hd hl
    have later := later_unfoldWithin (limit + 2) type t
    obtain ⟨-, d, -⟩ := (asks_raising hle).unfoldWithin (limit + 2) type t hd hl
    obtain ⟨-, -, e⟩ := (asks_raising hle).unfoldWithin (m + 2) type t hd hl
    subst hl
    refine ⟨later, d, fun within => ?_⟩
    have within : (unfoldWithin (t.limits.maxDepth + 2) type t).2.Clear m := within
    have same : unfoldWithin (m + 2) type t = unfoldWithin (t.limits.maxDepth + 2) type t := by
      have opens := within.same
      rw [later.limits] at opens
      rcases opens with rfl | ⟨_, opens⟩
      · rfl
      · exact unfoldWithin_more (opens.opened type) (by omega) (by omega)
    rw [same] at e
    exact congrArg (Prod.map dropRepeats id) (e within)

/-! ### Scripts -/

/-- One operation on a table with its arguments. -/
inductive Command where
  | node (ty : Ty)
  | literal (value : Literal)
  | object (properties : List Property) (index : Option TypeId)
  | template (spans : List TemplateSpan)
  | promise (inner : TypeId)
  | union (members : List TypeId)
  | intersection (members : List TypeId)
  | widen (type : TypeId)
  | freshScope
  | freshVariable
  | declareAlias (name : String) (params : List TypeId)
  | defineAlias (name : String) (body : TypeId)
  | instantiateAlias (name : String) (args : List TypeId)
  | request (r : Request)
  | startInference (params : List TypeId)
  | inferCall (f : Signature) (args : List TypeId)
  | narrow (type : TypeId) (test : Test) (negated : Bool)
  | freeParams (type : TypeId)
  | display (type : TypeId)

inductive Answer where
  | type (id : TypeId)
  | types (ids : List TypeId)
  | scope (n : Nat)
  | text (s : String)
  | outcome (r : Except TypeError TypeId)
  | defined (r : Except TypeError Unit)
  | reply (r : Request) (answer : r.Answer)
  | inference (i : Inference)
  | solution (s : InferenceSolution)

namespace Command

def run : Command → TableM Answer
  | node ty => .type <$> intern ty
  | literal value => .type <$> literalType value
  | object properties index => .type <$> objectOf properties index
  | template spans => .type <$> templateOf spans
  | promise inner => .type <$> promiseOf inner
  | union members => .type <$> unionOf members
  | intersection members => .type <$> intersectionOf members
  | widen type => .type <$> widenLiterals type
  | freshScope => .scope <$> GradualTyping.freshScope
  | freshVariable => .type <$> GradualTyping.freshVariable
  | declareAlias name params => .type <$> GradualTyping.declareAlias name params
  | defineAlias name body => .defined <$> (GradualTyping.defineAlias name body).run
  | instantiateAlias name args => .outcome <$> (GradualTyping.instantiateAlias name args).run
  | request r => .reply r <$> r.run
  | startInference params => .inference <$> Inference.start params
  | inferCall f args => .solution <$> GradualTyping.inferCall f args
  | narrow type test negated => .type <$> narrowByTest type test negated
  | freeParams type => do return .types ((← get).freeParams type)
  | display type => .text <$> GradualTyping.display type

/-- The answers to the commands of a script, one after the other. -/
def runAll (script : List Command) : TableM (List Answer) := script.mapM run

/-- A run under the limit of the table and one under a larger limit. -/
def Agrees {α : Type} (c : TableM α) : Prop :=
  ∀ (t : TypeTable) (m : Nat), t.limits.maxDepth ≤ m → (c t).2.limits = t.limits ∧
    ((c t).2.WithinLimit → c (t.withDepth m) = ((c t).1, (c t).2.withDepth m))

theorem agrees_of_rel {α : Type} {c : TableM α}
    (h : ∀ {limit m depth : Nat}, limit ≤ m → (Lockstep.raising limit m depth).Rel c c) :
    Agrees c := by
  intro t m hle
  obtain ⟨l, d, e⟩ := h hle t rfl rfl
  refine ⟨l.limits, fun within => ?_⟩
  have same : (c t).2.under ⟨m, t.depth⟩ = (c t).2.withDepth m := by rw [← d]; rfl
  rw [← same]
  exact e ⟨within.untripped, .inr ⟨l.limits ▸ hle, within.shallow⟩⟩

theorem Agrees.map {α β : Type} {c : TableM α} (f : α → β) (h : Agrees c) : Agrees (f <$> c) := by
  intro t m hle
  obtain ⟨limits, e⟩ := h t m hle
  exact ⟨limits, fun within => congrArg (Prod.map f id) (e within)⟩

theorem agrees_freshScope : Agrees GradualTyping.freshScope := fun _ _ _ => ⟨rfl, fun _ => rfl⟩

theorem agrees_declareAlias {name : String} {params : List TypeId} :
    Agrees (GradualTyping.declareAlias name params) := by
  intro t m _
  refine ⟨(runs_insert t _).limits, fun _ => ?_⟩
  have self : referenceTo name params (t.withDepth m) = _ := insert_withDepth t m _
  exact bind_of_eq self

theorem agrees_defineAlias {name : String} {body : TypeId} :
    Agrees (GradualTyping.defineAlias name body).run := by
  intro t m _
  have alias? : (t.withDepth m).alias? name = t.alias? name := rfl
  have node : (t.withDepth m).resolve body = t.resolve body := rfl
  rw [defineAlias_run, defineAlias_run, alias?, node]
  cases t.alias? name with
  | none => exact ⟨rfl, fun _ => rfl⟩
  | some declared =>
    dsimp only [Option.elim]
    split
    · exact ⟨rfl, fun _ => rfl⟩
    · exact ⟨rfl, fun _ => rfl⟩

theorem agrees_request (r : Request) : Agrees r.run := by
  refine agrees_of_rel fun {limit m depth} hle => ?_
  intro t hd hl
  subst hd hl
  rw [r.run_eq, r.run_eq]
  exact Request.runWith_rel (Lockstep.joined_raising hle) r t rfl rfl

theorem agrees_inferCall (f : Signature) {args : List TypeId} :
    Agrees (GradualTyping.inferCall f args) := by
  refine agrees_of_rel fun {limit m depth} hle => ?_
  let L := Lockstep.raising limit m depth
  refine (Lockstep.asks_raising hle).operations fun J => L.bind (Lockstep.Joined.start _) fun start => ?_
  exact L.bind ((L.state _).forM (fun p _ => J.infer p.1 p.2) start) fun i => J.solve

/-- Every command gives the same answer under a larger limit. -/
theorem agrees_run (c : Command) : Agrees c.run := by
  cases c with
  | node ty => exact (agrees_of_rel fun _ => (Lockstep.raising _ _ _).intern ty).map _
  | literal value => exact (agrees_of_rel fun _ => (Lockstep.raising _ _ _).literalType).map _
  | object ps index => exact (agrees_of_rel fun _ => (Lockstep.raising _ _ _).objectOf).map _
  | template spans => exact (agrees_of_rel fun _ => (Lockstep.raising _ _ _).templateOf).map _
  | promise inner => exact (agrees_of_rel fun _ => (Lockstep.raising _ _ _).promiseOf).map _
  | union ms => exact (agrees_of_rel fun _ => (Lockstep.raising _ _ _).unionOf ms).map _
  | intersection ms =>
    exact (agrees_of_rel fun _ => (Lockstep.raising _ _ _).intersectionOf).map _
  | widen type => exact (agrees_of_rel fun _ => (Lockstep.raising _ _ _).widenLiterals).map _
  | freshScope => exact agrees_freshScope.map _
  | freshVariable => exact (agrees_of_rel fun _ => (Lockstep.raising _ _ _).freshVariable).map _
  | declareAlias name params => exact agrees_declareAlias.map _
  | defineAlias name body => exact agrees_defineAlias.map _
  | instantiateAlias name args =>
    exact (agrees_of_rel fun hle => (Lockstep.asks_raising hle).instantiateAlias).map _
  | request r => exact (agrees_request r).map _
  | startInference params => exact (agrees_of_rel fun _ => Lockstep.Joined.start params).map _
  | inferCall f args => exact (agrees_inferCall f).map _
  | narrow type test negated =>
    exact (agrees_of_rel fun hle =>
      (Lockstep.narrows_raising hle).narrowByTest).map _
  | freeParams type =>
    exact agrees_of_rel fun hle => Lockstep.reads _ _ fun _ _ same => by simp only [same.freeParams]
  | display type => exact (agrees_of_rel fun _ => Lockstep.display type).map _

/-- The runs of a script keep step from command to command. -/
theorem runAll_withDepth {script : List Command} {t : TypeTable} {m : Nat}
    (hle : t.limits.maxDepth ≤ m)
    (within : ∀ before, before <+: script → (runAll before t).2.WithinLimit) :
    runAll script (t.withDepth m) = ((runAll script t).1, (runAll script t).2.withDepth m) := by
  induction script generalizing t with
  | nil => rfl
  | cons c script ih =>
    have unfolded (rest : List Command) : runAll (c :: rest) =
        (do let a ← c.run; let rest ← runAll rest; pure (a :: rest)) := mapM_cons
    obtain ⟨limits, first⟩ := agrees_run c t m hle
    have rest := ih (t := (c.run t).2) (limits ▸ hle) fun before hb => by
      have h := within (c :: before) (cons_prefix_cons.2 ⟨rfl, hb⟩)
      rw [unfolded] at h
      exact h
    have head : (c.run t).2.WithinLimit := by
      have h := within [c] (cons_prefix_cons.2 ⟨rfl, nil_prefix⟩)
      rw [unfolded] at h
      exact h
    rw [unfolded, bind_of_eq (first head)]
    exact bind_of_eq rest

end Command

theorem withDepth_withLimits (limits : Limits) (m : Nat) :
    (withLimits limits).withDepth m = withLimits { limits with maxDepth := m } := by
  have insertAll (tys : List Ty) (t : TypeTable) : (tys.foldl (fun t ty => (t.insert ty).2) t).withDepth m =
      tys.foldl (fun t ty => (t.insert ty).2) (t.withDepth m) := by
    induction tys generalizing t with
    | nil => rfl
    | cons ty tys ih =>
      rw [foldl_cons, foldl_cons, ih, insert_withDepth]
  exact insertAll _ _

/-- **A larger limit of depth changes no answer** of a script that stays within the smaller one:
its commands give the same answers, and leave the same table but for the limit. -/
theorem same_answers_under_larger_limit (script : List Command) (limits : Limits) (m : Nat)
    (hle : limits.maxDepth ≤ m)
    (within : ∀ before, before <+: script →
      (Command.runAll before (withLimits limits)).2.WithinLimit) :
    Command.runAll script (withLimits { limits with maxDepth := m }) =
      ((Command.runAll script (withLimits limits)).1,
        (Command.runAll script (withLimits limits)).2.withDepth m) := by
  rw [← withDepth_withLimits]
  refine Command.runAll_withDepth ?_ within
  rw [withLimits_eq]
  exact hle

theorem same_answers_questions :
    let script := [.node (.array .string), .union [.null, ⟨13⟩], .request (.isSubtype ⟨13⟩ ⟨14⟩),
      .narrow ⟨14⟩ .truthy false, .display ⟨14⟩]
    (∀ before, before <+: script →
      (Command.runAll before (withLimits { maxDepth := 2 })).2.WithinLimit) ∧
    Command.runAll script (withLimits { maxDepth := 100 }) =
      ((Command.runAll script (withLimits { maxDepth := 2 })).1,
        (Command.runAll script (withLimits { maxDepth := 2 })).2.withDepth 100) := by
  intro script
  have checked : script.inits.all (fun before =>
      decide (Command.runAll before (withLimits { maxDepth := 2 })).2.WithinLimit) = true := by cbv
  have within : ∀ before, before <+: script →
      (Command.runAll before (withLimits { maxDepth := 2 })).2.WithinLimit := fun before hb =>
    of_decide_eq_true (all_eq_true.1 checked before ((mem_inits ..).2 hb))
  exact ⟨within, same_answers_under_larger_limit script { maxDepth := 2 } 100 (by decide) within⟩

/-- The union of two objects of objects whose fields are functions of one shape. -/
def shapesScript : List Command :=
  let function (name : String) : Ty :=
    .function { params := [{ name := name, type := .number }], result := .string }
  [.node (function "x"), .node (function "y"),
    .object [{ name := "b", type := ⟨13⟩ }] none, .object [{ name := "b", type := ⟨14⟩ }] none,
    .object [{ name := "a", type := ⟨15⟩ }] none, .object [{ name := "a", type := ⟨16⟩ }] none,
    .union [⟨17⟩, ⟨18⟩]]

/-- **The guard is not all that stops at the limit**: where the shapes of two types are not
compared to the end, a union keeps both. -/
theorem shapes_apart_at_limit :
    (∀ before, before <+: shapesScript →
      (Command.runAll before (withLimits { maxDepth := 1 })).2.Untripped) ∧
    (Command.runAll shapesScript (withLimits { maxDepth := 2 })).1 ≠
      (Command.runAll shapesScript (withLimits { maxDepth := 1 })).1 := by
  have checked : shapesScript.inits.all (fun before =>
      (Command.runAll before (withLimits { maxDepth := 1 })).2.depthError.isNone) = true := by cbv
  have two : (Command.runAll shapesScript (withLimits { maxDepth := 2 })).1 =
      [13, 14, 15, 16, 17, 18, 17].map fun i => .type ⟨i⟩ := by cbv
  have one : (Command.runAll shapesScript (withLimits { maxDepth := 1 })).1 =
      [13, 14, 15, 16, 17, 18, 19].map fun i => .type ⟨i⟩ := by cbv
  refine ⟨fun before hb => Option.isNone_iff_eq_none.1
    (all_eq_true.1 checked before ((mem_inits ..).2 hb)), ?_⟩
  rw [two, one]
  simp

end GradualTyping
